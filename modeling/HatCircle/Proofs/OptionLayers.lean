import HatCircle.Command.Response
import HatCircle.Proofs.CommandLines

/-!
# Layers of options

The options of a search come from three layers: what the command line says, what the file
says, and the defaults. `Options.said?` is what the entries of a file say, with nothing for
what they leave out, and `Overrides.over` puts a layer over another one field by field. The
words of a command line ask for one layer, in whatever order and layout they come, and the options
that a search runs with are the two layers over the defaults (`SearchRequest.flags_over_file`).

A file is checked on its own before anything is put over it. So a file whose cap is zero is
refused even where the command line has another cap (`SearchRequest.zero_cap_of_file`).
-/

namespace HatCircle

/-! ### What a file says -/

/-- The options that two layers settle: the first layer over the second one, and both over the
defaults. -/
def Overrides.over (upper lower : Overrides) : Options where
  budgetMs := (upper.budgetMs.or lower.budgetMs).getD 1000
  seed := upper.seed.or lower.seed
  maxTrials := upper.maxTrials.or lower.maxTrials

namespace Options

/-- What the entries of a file say. Each of the three keys stands at most once; nothing is said
where it is missing, or where the seed or the cap is null. -/
def said? (entries : List (Yaml.Scalar × Yaml.Node)) : Option Overrides := do
  let budgetMs ← (← single? entries "budget_ms").elim (some none) fun node =>
    (number? node).map some
  let seed ← (← single? entries "seed").elim (some none) numberOrNull?
  let maxTrials ← (← single? entries "max_trials").elim (some none) numberOrNull?
  return ⟨budgetMs, seed.map UInt64.ofNat, maxTrials⟩

/-- The text is a file that can be read, and this is what it says. -/
def Says (text : String) (said : Overrides) : Prop :=
  (Yaml.mapping? text).bind said? = some said

instance (text : String) (said : Overrides) : Decidable (Says text said) :=
  inferInstanceAs (Decidable (_ = _))

/-- What is not said is left to the defaults. -/
theorem ofEntries?_eq (entries : List (Yaml.Scalar × Yaml.Node)) :
    ofEntries? entries = (said? entries).map (Overrides.over {}) := by
  have hbudget : ∀ budget : Option Yaml.Node, budget.elim (some 1000) number? =
      (budget.elim (some none) fun node => (number? node).map some).map (·.getD 1000) := by
    intro budget
    cases budget with
    | none => rfl
    | some node =>
        rw [Option.elim_some, Option.elim_some, Option.map_map]
        exact Option.map_id'.symm
  simp only [ofEntries?, said?, hbudget, Option.bind_eq_bind, Option.bind_map, Option.map_bind,
    Function.comp_def, Option.pure_def, Option.map_some]
  rfl

theorem validate_eq (options : Options) : options.validate =
    if options.maxTrials = some 0 then .error .zeroTrials else .ok options := rfl

theorem override_over (upper lower : Overrides) :
    (Overrides.over {} lower).override upper = upper.over lower := by
  cases hbudget : upper.budgetMs <;> simp [override, Overrides.over, hbudget]

/-- The file is checked on its own, and what the two layers settle is checked once more. -/
theorem resolve_of_said {text : String} {said : Overrides} (h : Says text said) (path : String)
    (flags : Overrides) : resolve (some (path, .ok text)) flags =
      if said.maxTrials = some 0 ∨ (flags.over said).maxTrials = some 0 then .error .zeroTrials
      else .ok (flags.over said) := by
  have hfile : (Yaml.mapping? text).bind ofEntries? = some (Overrides.over {} said) := by
    rw [funext ofEntries?_eq]
    exact Option.map_bind.symm.trans (congrArg (Option.map (Overrides.over {})) h)
  have hcap : (Overrides.over {} said).maxTrials = said.maxTrials := Option.none_or
  simp only [resolve, ofFile, ofText, hfile]
  rw [validate_eq, hcap]
  by_cases hzero : said.maxTrials = some 0
  · rw [if_pos hzero, if_pos (.inl hzero)]
    rfl
  · rw [if_neg hzero]
    simp only [hzero, false_or, ← validate_eq]
    exact congrArg validate (override_over flags said)

end Options

/-! ### Options of searches -/

/-- No formula fails under the code of a cap of zero. -/
theorem Formula.Failure.code_ne_maxTrials (failure : Failure) (source : String) :
    (failure.toError source).info.code ≠ "max-trials" := by
  cases failure with
  | rejected rejection =>
      change rejection.category ≠ "max-trials"
      cases rejection <;> simp [Rejection.category]
  | unparsed error =>
      change "parse" ≠ "max-trials"
      decide

namespace SearchRequest

open Options

variable {text : String} {said : Overrides}

theorem job_of_zero (h : Says text said) (path : String) (request : SearchRequest)
    (hzero : said.maxTrials = some 0 ∨ (request.overrides.over said).maxTrials = some 0) :
    request.job (some (path, .ok text)) = .error OptionsError.zeroTrials.toError := by
  rw [job, resolve_of_said h, if_pos hzero]
  rfl

theorem job_of_not_zero (h : Says text said) (path : String) (request : SearchRequest)
    (hfile : said.maxTrials ≠ some 0) (hcap : (request.overrides.over said).maxTrials ≠ some 0) :
    request.job (some (path, .ok text)) =
      ((Formula.compile request.puzzle.puzzle request.formula).mapError
        (·.toError request.formula)).map fun formula =>
          ⟨formula, request.overrides.over said, request.runs, request.form⟩ := by
  rw [job, resolve_of_said h, if_neg (not_or.2 ⟨hfile, hcap⟩)]
  cases Formula.compile request.puzzle.puzzle request.formula with
  | error failure => rfl
  | ok formula => rfl

/-- A search has the options that its words spell, in any order and layout. What it runs with is,
field by field, what the command line says, or else what the file says, or else the default. The
search is refused for its cap exactly when that cap is zero
or the cap in the file is; otherwise it runs if its formula is one. -/
theorem flags_over_file (h : Says text said) :
    (∀ words request, Command.ofWords ("search" :: words) = .ok (.search request) ↔
      ∃ line : CommandLine, line.words = words ∧ line.Fits Command.searchGrammar ∧
        line.Asks request) ∧
    ∀ path (request : SearchRequest),
      (∀ job, request.job (some (path, .ok text)) = .ok job →
        job.options.budgetMs = (request.overrides.budgetMs.or said.budgetMs).getD 1000 ∧
        job.options.seed = request.overrides.seed.or said.seed ∧
        job.options.maxTrials = request.overrides.maxTrials.or said.maxTrials) ∧
      ((∃ error, request.job (some (path, .ok text)) = .error error ∧
          error.info.code = "max-trials") ↔
        said.maxTrials = some 0 ∨ request.overrides.maxTrials.or said.maxTrials = some 0) ∧
      (said.maxTrials ≠ some 0 → request.overrides.maxTrials.or said.maxTrials ≠ some 0 →
        ∀ formula, Formula.compile request.puzzle.puzzle request.formula = .ok formula →
          ∃ job, request.job (some (path, .ok text)) = .ok job ∧ job.formula = formula) := by
  refine ⟨fun words request => Command.ofWords_search_iff, ?_⟩
  intro path request
  by_cases hzero : said.maxTrials = some 0 ∨ (request.overrides.over said).maxTrials = some 0
  · have hjob := job_of_zero h path request hzero
    refine ⟨?_, ⟨fun _ => hzero, fun _ => ⟨_, hjob, rfl⟩⟩, ?_⟩
    · intro job hok
      rw [hjob] at hok
      cases hok
    · intro hfile hcap
      exact absurd hzero (not_or.2 ⟨hfile, hcap⟩)
  · obtain ⟨hfile, hcap⟩ := not_or.1 hzero
    have hjob := job_of_not_zero h path request hfile hcap
    cases hcompile : Formula.compile request.puzzle.puzzle request.formula with
    | error failure =>
        rw [hcompile] at hjob
        refine ⟨?_, ⟨?_, fun h => absurd h hzero⟩, ?_⟩
        · intro job hok
          rw [hjob] at hok
          cases hok
        · rintro ⟨error, herror, hcode⟩
          rw [hjob] at herror
          obtain rfl := Except.error.inj herror
          exact absurd hcode (failure.code_ne_maxTrials request.formula)
        · intro _ _ formula hformula
          cases hformula
    | ok formula =>
        rw [hcompile] at hjob
        refine ⟨?_, ⟨?_, fun h => absurd h hzero⟩, ?_⟩
        · intro job hok
          rw [hjob] at hok
          obtain rfl := Except.ok.inj hok
          exact ⟨rfl, rfl, rfl⟩
        · rintro ⟨error, herror, -⟩
          rw [hjob] at herror
          cases herror
        · intro _ _ formula' hformula
          obtain rfl := Except.ok.inj hformula
          exact ⟨_, hjob, rfl⟩

/-- A file with a budget and a cap, under flags with a seed and another cap. -/
theorem flags_over_file_cap :
    Says "budget_ms: 250\nmax_trials: 7\n" ⟨some 250, none, some 7⟩ ∧
      Command.ofWords
          ["search", "--seed", "5", "i", "--config=options.yaml", "--max-trials", "+09"] =
        .ok (.search ⟨.ten, "i", some "options.yaml", ⟨none, some 5, some 9⟩, none, .full⟩) ∧
      ∃ job, SearchRequest.job
          ⟨.ten, "i", some "options.yaml", ⟨none, some 5, some 9⟩, none, .full⟩
          (some ("options.yaml", .ok "budget_ms: 250\nmax_trials: 7\n")) = .ok job ∧
        job.options.budgetMs = 250 ∧ job.options.seed = some 5 ∧
        job.options.maxTrials = some 9 := by
  have hsaid : Says "budget_ms: 250\nmax_trials: 7\n" ⟨some 250, none, some 7⟩ := by
    decide +kernel
  have hcompile : Formula.compile PuzzleKind.ten.puzzle "i" =
      .ok ⟨"i", [.variable "i"], .var "i" .ownIndex, .ten⟩ := by
    decide +kernel
  obtain ⟨hwords, hrequest⟩ := flags_over_file hsaid
  let line : CommandLine := ⟨[.apart "seed" "5", .operand "i", .joined "config" "options.yaml",
    .apart "max-trials" "+09"], none⟩
  have hfits : line.Fits Command.searchGrammar := ⟨by decide +kernel, by decide, by decide⟩
  have hseed : Numeral.Spells "5".toList 5 ∧ 5 < UInt64.size :=
    (Numeral.read_eq_ok_iff (by decide)).1 (by decide +kernel)
  have hcap : Numeral.Spells "+09".toList 9 ∧ 9 < UInt64.size :=
    (Numeral.read_eq_ok_iff (by decide)).1 (by decide +kernel)
  have hasks : line.Asks
      ⟨.ten, "i", some "options.yaml", ⟨none, some 5, some 9⟩, none, .full⟩ :=
    ⟨rfl, by decide +kernel, rfl, by decide, .none, .some hseed, .some hcap, .none, rfl⟩
  obtain ⟨hoptions, -, hruns⟩ := hrequest "options.yaml"
    ⟨.ten, "i", some "options.yaml", ⟨none, some 5, some 9⟩, none, .full⟩
  obtain ⟨job, hjob, -⟩ := hruns (by decide) (by decide) _ hcompile
  exact ⟨hsaid, (hwords _ _).2 ⟨line, rfl, hfits, hasks⟩, job, hjob, hoptions job hjob⟩

/-- A cap of zero in a file is refused even though the command line has a cap of five, which is
the one that would hold. -/
theorem zero_cap_of_file :
    Says "max_trials: 0" ⟨none, none, some 0⟩ ∧
      Command.ofWords
          ["search", "other", "--puzzle", "two", "--config", "options.yaml", "--max-trials", "5"] =
        .ok (.search ⟨.two, "other", some "options.yaml", ⟨none, none, some 5⟩, none, .full⟩) ∧
      (Overrides.over ⟨none, none, some 5⟩ ⟨none, none, some 0⟩).maxTrials = some 5 ∧
      ∃ error, SearchRequest.job
          ⟨.two, "other", some "options.yaml", ⟨none, none, some 5⟩, none, .full⟩
          (some ("options.yaml", .ok "max_trials: 0")) = .error error ∧
        error.info.code = "max-trials" := by
  have hsaid : Says "max_trials: 0" ⟨none, none, some 0⟩ := by decide +kernel
  exact ⟨hsaid, by decide +kernel, rfl, _, job_of_zero hsaid _ _ (.inl rfl), rfl⟩

end SearchRequest

end HatCircle
