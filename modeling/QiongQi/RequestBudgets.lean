import QiongQi.RequestItems

/-! `applyModelRequestInputBudget`: a request whose history is cut short until it is taken for no
more tokens than its limit. -/
namespace QiongQi.RequestBudgets
open RequestItems List

def MIN_CLIPPED_ITEM_TOKENS : Int := 24

structure ModelToolSpec where
  name : Text
  description : Text
  inputSchema : Text
  deriving DecidableEq

structure ModelTextAttachmentFallback where
  name : Text
  mimeType : Text
  byteSize : Text
  dataBase64 : Text
  deriving DecidableEq

/-- A request, as far as its tokens are counted; numbers and schemas are kept as their texts. -/
structure ModelRequest (ρ σ : Type) where
  systemPrompt : Option Text
  modeInstruction : Option Text
  contextInstructions : Option (List Text)
  prefix_ : List (RequestItem ρ)
  history : List (RequestItem ρ)
  tools : List ModelToolSpec
  attachmentTextFallbacks : Option (List ModelTextAttachmentFallback)
  requiredToolName : Option Text
  reasoningEffort : Option Text
  rest : σ
  deriving DecidableEq

section
variable {ρ σ : Type}

def estimateText : Option Text → Nat
  | none => 0
  | some text => if trim text = [] then 0 else tokensOf text

def estimateTools (tools : List ModelToolSpec) : Nat :=
  tools.foldl (fun sum tool =>
    sum + estimateText (some (joinLines [tool.name, tool.description, tool.inputSchema]))) 0

def estimateTextFallbacks (fallbacks : Option (List ModelTextAttachmentFallback)) : Nat :=
  (fallbacks.getD []).foldl (fun sum attachment =>
    sum + estimateText (some (joinLines [attachment.name, attachment.mimeType,
      attachment.byteSize, attachment.dataBase64]))) 0

def estimateModelRequestInputTokens (request : ModelRequest ρ σ) : Option Nat :=
  (estimateItems request.prefix_).bind fun prefixTokens =>
    (estimateItems request.history).map fun historyTokens =>
      estimateText request.systemPrompt + estimateText request.modeInstruction +
        estimateText (request.contextInstructions.map joinLines) + prefixTokens + historyTokens +
        estimateTools request.tools + estimateTextFallbacks request.attachmentTextFallbacks +
        estimateText request.requiredToolName + estimateText request.reasoningEffort

/-! ## Clipping

`round` is the rounding of a number to a double. -/

def marker : Text := ascii "\n[truncated for model input budget]\n"

def clipTextForBudget (round : ℚ → ℚ) (text : Text) (budgetTokens : Int) : Text :=
  let maxChars := (budgetTokens * CHARS_PER_TOKEN - marker.length).toNat
  if text.length ≤ maxChars then text
  else if maxChars = 0 then trim marker
  else
    let headChars := (round (maxChars * round (3 / 5))).floor.toNat
    let tailChars := maxChars - headChars
    trimEnd (text.take headChars) ++ marker ++ trimStart (text.drop (text.length - tailChars))

/-- Nothing that has no JSON text gets here: a result without an output cannot be measured. -/
def stringifyForBudget : Output → Text
  | .undefined | .null => []
  | .text written | .value written => written

/-- The arguments that stand for those of a call. -/
def truncatedArguments (tokens : Nat) : Text :=
  ascii "\x7b\"qiongqi_model_input_budget\":\"Tool arguments truncated for model input budget; " ++
    ascii "original approx " ++ ascii (toString tokens) ++ ascii " token(s).\"\x7d"

def clipContent (round : ℚ → ℚ) (tokens : Nat) (safeBudget : Int) : Content → Content
  | .userMessage text => .userMessage (clipTextForBudget round text safeBudget)
  | .assistantText text => .assistantText (clipTextForBudget round text safeBudget)
  | .assistantReasoning text => .assistantReasoning (clipTextForBudget round text safeBudget)
  | .toolCall toolName callId _ => .toolCall toolName callId (truncatedArguments tokens)
  | .toolResult callId output =>
    .toolResult callId (.text (clipTextForBudget round (stringifyForBudget output) safeBudget))
  | .compaction summary => .compaction (clipTextForBudget round summary safeBudget)
  | .review title reviewText output =>
    .review title (some (clipTextForBudget round (reviewText.getD (output.getD [])) safeBudget))
      none
  | .runtimeProgress => .runtimeProgress
  | .approval toolName summary => .approval toolName (clipTextForBudget round summary safeBudget)
  | .userInput prompt _ => .userInput (clipTextForBudget round prompt safeBudget) []
  | .error message _ => .error (clipTextForBudget round message safeBudget) none

def clipItemForBudget (round : ℚ → ℚ) (item : RequestItem ρ) (tokens : Nat) (budgetTokens : Int) :
    Option (RequestItem ρ) :=
  let safeBudget := (round (budgetTokens * round (17 / 20))).floor
  if safeBudget < MIN_CLIPPED_ITEM_TOKENS then none
  else some { item with content := clipContent round tokens safeBudget item.content }

/-- The items from the last one on, as long as they fit; the one that does not is clipped. -/
def fitReversed (round : ℚ → ℚ) (budgetTokens : Nat) :
    (used : Nat) → List (RequestItem ρ) → Option (List (RequestItem ρ))
  | _, [] => some []
  | used, item :: rest =>
    if budgetTokens ≤ used then some []
    else (estimateItem item).bind fun itemTokens =>
      if itemTokens ≤ budgetTokens - used then
        (fitReversed round budgetTokens (used + itemTokens) rest).map fun selected =>
          item :: selected
      else some (clipItemForBudget round item itemTokens (budgetTokens - used : Nat)).toList

def fitHistoryToBudget (round : ℚ → ℚ) (history : List (RequestItem ρ)) (budgetTokens : Nat) :
    Option (List (RequestItem ρ)) :=
  (fitReversed round budgetTokens 0 history.reverse).map List.reverse

/-- The history that is tried with a budget. -/
def trial (round : ℚ → ℚ) (request : ModelRequest ρ σ) (budgetTokens : Nat) :
    Option (List (RequestItem ρ)) :=
  (fitHistoryToBudget round request.history budgetTokens).map repairModelHistoryItems

def nextBudget (round : ℚ → ℚ) (maxInputTokens historyBudget estimate : Nat) : Nat :=
  let ratio := max (round (1 / 10)) (round (maxInputTokens / max estimate 1))
  (max 1 (round (round (historyBudget * ratio) * round (17 / 20))).floor).toNat

/-- What is made of a history that has been tried: another one is, while `attempts` are left. -/
def retry (round : ℚ → ℚ) (request : ModelRequest ρ σ) (maxInputTokens historyBudget : Nat) :
    (attempts : Nat) → (history : List (RequestItem ρ)) → Option (ModelRequest ρ σ)
  | attempts, history =>
    (estimateModelRequestInputTokens { request with history := history }).bind fun estimate =>
      if estimate ≤ maxInputTokens then some { request with history := history }
      else
        match attempts with
        | 0 => some { request with history := [] }
        | attempts + 1 =>
          if history = [] then some { request with history := [] }
          else
            (trial round request (nextBudget round maxInputTokens historyBudget estimate)).bind
              (retry round request maxInputTokens historyBudget attempts)

def applyModelRequestInputBudget (round : ℚ → ℚ) (request : ModelRequest ρ σ)
    (maxInputTokens : ℚ) : Option (ModelRequest ρ σ) :=
  let limit := maxInputTokens.floor
  if limit ≤ 0 then some request
  else
    (estimateModelRequestInputTokens request).bind fun estimate =>
      if estimate ≤ limit then some request
      else
        (estimateModelRequestInputTokens { request with history := [] }).bind fun fixedTokens =>
          let historyBudget := (limit - fixedTokens).toNat
          if historyBudget = 0 then some { request with history := [] }
          else (trial round request historyBudget).bind
            (retry round request limit.toNat historyBudget 4)

/-- What is kept of a history: its end, the first item of which may be clipped. -/
inductive Kept (round : ℚ → ℚ) (history : List (RequestItem ρ)) : List (RequestItem ρ) → Prop
  | whole {kept : List (RequestItem ρ)} (ends : kept <:+ history) : Kept round history kept
  | clipped {first cut : RequestItem ρ} {rest : List (RequestItem ρ)} {tokens : Nat}
      {budgetTokens : Int} (ends : first :: rest <:+ history)
      (short : clipItemForBudget round first tokens budgetTokens = some cut) :
      Kept round history (cut :: rest)

/-- The request fits its budget, and its history is the repair of what is kept of the original. -/
structure Budgeted (round : ℚ → ℚ) (request : ModelRequest ρ σ) (limit : Nat)
    (result : ModelRequest ρ σ) : Prop where
  fits : ∃ tokens, estimateModelRequestInputTokens result = some tokens ∧ tokens ≤ limit
  others : result = { request with history := result.history }
  history : ∃ kept, Kept round request.history kept ∧ result.history = repairModelHistoryItems kept

/-- The request fits its budget: it has from the start, or its history is such a repair. -/
structure Shortened (round : ℚ → ℚ) (request : ModelRequest ρ σ) (limit : Nat)
    (result : ModelRequest ρ σ) : Prop where
  fits : ∃ tokens, estimateModelRequestInputTokens result = some tokens ∧ tokens ≤ limit
  others : result = { request with history := result.history }
  history : result.history = request.history ∨
    ∃ kept, Kept round request.history kept ∧ result.history = repairModelHistoryItems kept
  untouched : (∃ tokens, estimateModelRequestInputTokens request = some tokens ∧
    tokens ≤ limit) → result = request

variable {round : ℚ → ℚ} {request : ModelRequest ρ σ}

theorem clip_measured (short : clipItemForBudget round item tokens budgetTokens = some cut) :
    (collectText cut).isSome := by
  unfold clipItemForBudget at short
  dsimp only at short
  split at short
  · cases short
  · cases short
    cases content : item.content <;> rfl

theorem fitReversed_kept (fitted : fitReversed round budgetTokens used items = some selected) :
    (∃ behind, items = selected ++ behind) ∨
      ∃ before first behind cut tokens, ∃ budgetTokens : Int, items = before ++ first :: behind ∧
        clipItemForBudget round first tokens budgetTokens = some cut ∧ selected = before ++ [cut] := by
  induction items generalizing used selected with
  | nil =>
    cases fitted
    exact .inl ⟨[], rfl⟩
  | cons item rest ih =>
    rw [fitReversed] at fitted
    split at fitted
    · cases fitted
      exact .inl ⟨item :: rest, rfl⟩
    · obtain ⟨itemTokens, -, chosen⟩ := Option.bind_eq_some_iff.mp fitted
      split at chosen
      · obtain ⟨later, fits, rfl⟩ := Option.map_eq_some_iff.mp chosen
        rcases ih fits with ⟨behind, rfl⟩ | ⟨before, first, behind, cut, tokens, budget, rfl, short, rfl⟩
        · exact .inl ⟨behind, rfl⟩
        · exact .inr ⟨item :: before, first, behind, cut, tokens, budget, rfl, short, rfl⟩
      · cases chosen
        cases short : clipItemForBudget round item itemTokens (budgetTokens - used : Nat) with
        | none => exact .inl ⟨item :: rest, rfl⟩
        | some cut => exact .inr ⟨[], item, rest, cut, itemTokens, _, rfl, short, rfl⟩

variable {history : List (RequestItem ρ)}

theorem fit_kept (fitted : fitHistoryToBudget round history budgetTokens = some selected) :
    Kept round history selected := by
  obtain ⟨backwards, taken, rfl⟩ := Option.map_eq_some_iff.mp fitted
  rcases fitReversed_kept taken with ⟨behind, split⟩ | ⟨before, first, behind, cut, tokens, budget,
    split, short, rfl⟩
  · apply Kept.whole
    refine ⟨behind.reverse, ?_⟩
    rw [← reverse_append, ← split, reverse_reverse]
  · have ends : first :: before.reverse <:+ history := by
      refine ⟨behind.reverse, ?_⟩
      have whole := congrArg List.reverse split
      simpa using whole.symm
    rw [reverse_append]
    exact .clipped ends short

theorem kept_measured (measured : Measured history) (held : Kept round history kept) :
    Measured kept := by
  cases held with
  | whole ends => exact fun item found => measured item (ends.subset found)
  | clipped ends short =>
    intro item found
    rcases mem_cons.mp found with rfl | later
    · exact clip_measured short
    · exact measured item (ends.subset (mem_cons_of_mem _ later))

variable (round) in
/-- Where every item can be measured, the history is fitted to any budget. -/
theorem fit_some (measured : Measured history) (budgetTokens : Nat) :
    ∃ selected, fitHistoryToBudget round history budgetTokens = some selected := by
  have backwards : ∀ (items : List (RequestItem ρ)) (used : Nat), Measured items →
      ∃ selected, fitReversed round budgetTokens used items = some selected := by
    intro items
    induction items with
    | nil => exact fun _ _ => ⟨[], rfl⟩
    | cons item rest ih =>
      intro used measured
      rw [fitReversed]
      split
      · exact ⟨[], rfl⟩
      · obtain ⟨tokens, first⟩ := estimateItem_measured (measured item mem_cons_self)
        rw [first, Option.bind_some]
        split
        · obtain ⟨later, fitted⟩ := ih (used + tokens) fun other held =>
            measured other (mem_cons_of_mem _ held)
          exact ⟨item :: later, by rw [fitted]; rfl⟩
        · exact ⟨_, rfl⟩
  obtain ⟨selected, fitted⟩ := backwards history.reverse 0 fun item held =>
    measured item (mem_reverse.mp held)
  exact ⟨selected.reverse, by rw [fitHistoryToBudget, fitted]; rfl⟩

theorem repair_measured (measured : Measured items) : Measured (repairModelHistoryItems items) :=
  fun item held => measured item ((repairFrom_sublist 0 [] items).subset held)

variable (round) in
theorem trial_some (measured : Measured request.history) (budgetTokens : Nat) : ∃ kept,
    Kept round request.history kept ∧
      trial round request budgetTokens = some (repairModelHistoryItems kept) := by
  obtain ⟨kept, fitted⟩ := fit_some round measured budgetTokens
  exact ⟨kept, fit_kept fitted, by rw [trial, fitted]; rfl⟩

/-- The tokens of a request are those of its history and of everything else. -/
theorem estimate_split
    (alone : estimateModelRequestInputTokens { request with history := [] } = some fixed)
    (counted : estimateItems history = some tokens) :
    estimateModelRequestInputTokens { request with history := history } = some (fixed + tokens) := by
  unfold estimateModelRequestInputTokens at alone ⊢
  obtain ⟨prefixTokens, before, alone⟩ := Option.bind_eq_some_iff.mp alone
  simp only [before, counted, estimateItems, Option.map_some, Option.bind_some, Option.some.injEq] at alone ⊢
  omega

/-- A history that is tried fits, or another one is tried, or none is left. -/
theorem retry_shortened
    (alone : estimateModelRequestInputTokens { request with history := [] } = some fixed)
    (room : fixed ≤ limit) (measured : Measured request.history)
    (held : Kept round request.history kept) : ∃ result,
      retry round request limit historyBudget attempts (repairModelHistoryItems kept) =
          some result ∧ Budgeted round request limit result := by
  have emptied : Budgeted round request limit { request with history := [] } := by
    refine ⟨⟨fixed, alone, room⟩, rfl, [], .whole (List.nil_suffix), ?_⟩
    rw [repairModelHistoryItems, repairFrom]
  induction attempts generalizing kept with
  | zero =>
    have short := repair_measured (kept_measured measured held)
    obtain ⟨tokens, counted⟩ := estimateItems_measured short
    rw [retry, estimate_split alone counted, Option.bind_some]
    split
    · rename_i fits
      exact ⟨_, rfl, ⟨_, estimate_split alone counted, fits⟩, rfl, kept, held, rfl⟩
    · exact ⟨_, rfl, emptied⟩
  | succ attempts ih =>
    have short := repair_measured (kept_measured measured held)
    obtain ⟨tokens, counted⟩ := estimateItems_measured short
    rw [retry, estimate_split alone counted, Option.bind_some]
    split
    · rename_i fits
      exact ⟨_, rfl, ⟨_, estimate_split alone counted, fits⟩, rfl, kept, held, rfl⟩
    · dsimp only
      split
      · exact ⟨_, rfl, emptied⟩
      · obtain ⟨other, heldOther, tried⟩ := trial_some round measured
          (nextBudget round limit historyBudget (fixed + tokens))
        rw [tried, Option.bind_some]
        exact ih heldOther

/-- Where the request without its history fits the limit, the whole request is made to fit it:
its history is left as it is, or is the repair of an end of it, the first item of which may be
clipped. -/
theorem budget_reached (round : ℚ → ℚ) (request : ModelRequest ρ σ) (limit fixed : Nat) (positive : 0 < limit)
    (alone : estimateModelRequestInputTokens { request with history := [] } = some fixed)
    (room : fixed ≤ limit) (measured : Measured request.history) : ∃ result,
      applyModelRequestInputBudget round request limit = some result ∧
        Shortened round request limit result := by
  have floored : (limit : ℚ).floor = limit := Rat.floor_intCast limit
  obtain ⟨tokens, counted⟩ := estimateItems_measured measured
  have whole : estimateModelRequestInputTokens request = some (fixed + tokens) :=
    estimate_split alone counted
  have large : ¬ (limit : Int) ≤ 0 := by omega
  have fits (result : ModelRequest ρ σ) (short : ¬ (((fixed + tokens : Nat) : Int) ≤ limit))
      (budgeted : Budgeted round request limit result) : Shortened round request limit result := by
    refine ⟨budgeted.fits, budgeted.others, .inr budgeted.history, ?_⟩
    rintro ⟨others, same, less⟩
    rw [whole] at same
    cases same
    omega
  unfold applyModelRequestInputBudget
  simp only [floored, if_neg large, whole, Option.bind_some]
  split
  · rename_i less
    exact ⟨request, rfl, ⟨_, whole, by omega⟩, rfl, .inl rfl, fun _ => rfl⟩
  · rename_i short
    rw [alone, Option.bind_some]
    split
    · refine ⟨_, rfl, fits _ short ⟨⟨fixed, alone, room⟩, rfl, [], .whole List.nil_suffix, ?_⟩⟩
      rw [repairModelHistoryItems, repairFrom]
    · obtain ⟨kept, held, tried⟩ := trial_some round measured ((limit : Int) - fixed).toNat
      obtain ⟨result, made, budgeted⟩ :=
        retry_shortened alone room measured held
      refine ⟨result, ?_, fits result short budgeted⟩
      rw [tried, Option.bind_some, Int.toNat_natCast]
      exact made

end

section Example

private def said (text : String) : RequestItem Unit := ⟨"t1", .userMessage (ascii text), ()⟩

private def asking (history : List (RequestItem Unit)) : ModelRequest Unit Unit :=
  { systemPrompt := none
    modeInstruction := none
    contextInstructions := none
    prefix_ := []
    history := history
    tools := []
    attachmentTextFallbacks := none
    requiredToolName := none
    reasoningEffort := none
    rest := () }

private def talk : List (RequestItem Unit) :=
  [said "please read the whole of the file and explain it", said "go on"]

theorem budget_reached_talk : ∃ result, applyModelRequestInputBudget id (asking talk) 5 = some result ∧
      Shortened id (asking talk) 5 result :=
  budget_reached id (asking talk) 5 0 (by decide) rfl (by decide) (by
    intro item held
    rcases mem_cons.mp held with rfl | held
    · rfl
    · rw [mem_singleton.mp held]
      rfl)

private def orphan (output : Output) : RequestItem Unit := ⟨"t1", .toolResult "c1" output, ()⟩

/-- A result without a call is left in a history that fits, and one without an output cannot be
measured. -/
theorem orphan_kept :
    (∃ result, applyModelRequestInputBudget id (asking [orphan .null]) 5 = some result ∧
      ¬ Budgeted id (asking [orphan .null]) 5 result) ∧
    applyModelRequestInputBudget id (asking [orphan .undefined]) 5 = none ∧
    estimateModelRequestInputTokens (asking []) = some 0 := by
  have lost (cut : RequestItem Unit) (result : cut.isToolResult = true) :
      repairModelHistoryItems [cut] = [] := by
    have call : ¬ cut.isToolCall = true := by
      rw [RequestItem.isToolCall, HistoryRepair.isToolCall_of_result result]
      exact Bool.false_ne_true
    rw [repairModelHistoryItems, repairFrom, if_neg call, if_pos result, if_neg not_mem_nil, repairFrom]
  refine ⟨⟨asking [orphan .null], by decide, fun budgeted => ?_⟩, by decide, rfl⟩
  obtain ⟨kept, held, same⟩ := budgeted.history
  have none_kept : repairModelHistoryItems kept = [] := by
    cases held with
    | whole ends =>
      rcases suffix_cons_iff.mp ends with rfl | ends
      · exact lost _ rfl
      · rw [suffix_nil.mp ends, repairModelHistoryItems, repairFrom]
    | clipped ends short =>
      rcases suffix_cons_iff.mp ends with first | ends
      · obtain ⟨rfl, rfl⟩ := List.cons.inj first
        apply lost
        unfold clipItemForBudget at short
        dsimp only at short
        split at short
        · cases short
        · cases short
          rfl
      · cases suffix_nil.mp ends
  rw [none_kept] at same
  cases same

end Example

end QiongQi.RequestBudgets
