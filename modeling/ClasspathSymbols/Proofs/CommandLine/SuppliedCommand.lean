import ClasspathSymbols.CommandLine.Arguments

/-! # The command that is left out

The scan for the command goes past the options. An option with a value takes the next argument with
it, whatever that looks like, and two dashes end the options. At most one argument is put in, the
command `type`, and where it has been put in the scan finds it. -/
namespace ClasspathSymbols.Arguments

/-- Options as they stand in front of a command. -/
inductive AreOptions : List String → Prop where
  | none : AreOptions []
  | valued {option value : String} {rest : List String} :
      option ∈ valuedOptions → AreOptions rest → AreOptions (option :: value :: rest)
  | single {option : String} {rest : List String} :
      isDashed option → option ∉ valuedOptions → option ≠ "--" → AreOptions rest →
      AreOptions (option :: rest)

def front (options : List String) (ended : Bool) : List String :=
  options ++ if ended then ["--"] else []

/-- Where the options are over. -/
inductive EndsOptions : List String → Prop where
  | nothing : EndsOptions []
  | noValue {option : String} : option ∈ valuedOptions → EndsOptions [option]
  | dashes (rest : List String) : EndsOptions ("--" :: rest)
  | word {word : String} (rest : List String) : ¬ isDashed word → EndsOptions (word :: rest)

/-- The same arguments, or the same with `word` put in at one place. -/
def AddsAtMost (word : String) (arguments more : List String) : Prop :=
  more = arguments ∨
    ∃ before after, arguments = before ++ after ∧ more = before ++ word :: after

theorem isDashed_of_valued {option : String} (h : option ∈ valuedOptions) : isDashed option := by
  have hall : ∀ o ∈ valuedOptions, isDashed o := by decide
  exact hall option h

theorem ne_dashes_of_valued {option : String} (h : option ∈ valuedOptions) : option ≠ "--" := by
  rintro rfl
  exact absurd h (by decide)

theorem withCommand_cons (word : String) (rest : List String) :
    withCommand (word :: rest) =
      if word ∈ commandWords then word :: rest else "type" :: word :: rest := by
  simp only [withCommand, List.contains_iff_mem]

theorem withCommand_withCommand (arguments : List String) :
    withCommand (withCommand arguments) = withCommand arguments := by
  cases arguments with
  | nil => rfl
  | cons word rest =>
    rw [withCommand_cons]
    by_cases hword : word ∈ commandWords
    · rw [if_pos hword, withCommand_cons, if_pos hword]
    · rw [if_neg hword, withCommand_cons, if_pos (by decide)]

theorem supplyCommand_dashes (rest : List String) :
    supplyCommand ("--" :: rest) = "--" :: withCommand rest := by
  rw [supplyCommand]

theorem supplyCommand_valued {option value : String} {rest : List String}
    (h : option ∈ valuedOptions) :
    supplyCommand (option :: value :: rest) = option :: value :: supplyCommand rest := by
  rw [supplyCommand, if_pos (List.contains_iff_mem.2 h)]
  exact ne_dashes_of_valued h

theorem supplyCommand_last {option : String} (h : isDashed option) :
    supplyCommand [option] = [option] := by
  by_cases hdashes : option = "--"
  · rw [hdashes, supplyCommand_dashes, withCommand]
  · rw [supplyCommand, if_pos h]
    exact hdashes

theorem supplyCommand_single {option : String} {rest : List String} (hdash : isDashed option)
    (hvalued : option ∉ valuedOptions) (hdashes : option ≠ "--") :
    supplyCommand (option :: rest) = option :: supplyCommand rest := by
  cases rest with
  | nil => exact supplyCommand_last hdash
  | cons next rest =>
    rw [supplyCommand, if_neg (mt List.contains_iff_mem.1 hvalued), if_pos hdash]
    exact hdashes

theorem supplyCommand_word {word : String} {rest : List String} (h : ¬ isDashed word) :
    supplyCommand (word :: rest) = withCommand (word :: rest) := by
  have hdashes : word ≠ "--" := by
    rintro rfl
    exact h (by decide)
  cases rest with
  | nil =>
    rw [supplyCommand, if_neg h]
    exact hdashes
  | cons next rest =>
    have hvalued := mt isDashed_of_valued h
    rw [supplyCommand, if_neg (mt List.contains_iff_mem.1 hvalued), if_neg h]
    exact hdashes

theorem supplyCommand_options {options : List String} (h : AreOptions options)
    (rest : List String) : supplyCommand (options ++ rest) = options ++ supplyCommand rest := by
  induction h with
  | none => rfl
  | valued hoption _ ih =>
    rw [List.cons_append, List.cons_append, supplyCommand_valued hoption, ih]
    rfl
  | single hdash hvalued hdashes _ ih =>
    rw [List.cons_append, supplyCommand_single hdash hvalued hdashes, ih]
    rfl

theorem exists_options (arguments : List String) :
    ∃ options rest, arguments = options ++ rest ∧ AreOptions options ∧ EndsOptions rest := by
  fun_induction supplyCommand arguments with
  | case1 => exact ⟨[], [], rfl, .none, .nothing⟩
  | case2 rest => exact ⟨[], _, rfl, .none, .dashes rest⟩
  | case3 option hdashes hdash =>
    by_cases hvalued : option ∈ valuedOptions
    · exact ⟨[], _, rfl, .none, .noValue hvalued⟩
    · exact ⟨[option], [], rfl, .single hdash hvalued hdashes .none, .nothing⟩
  | case4 word _ hword => exact ⟨[], _, rfl, .none, .word [] hword⟩
  | case5 option value rest _ hvalued ih =>
    obtain ⟨options, stop, rfl, hoptions, hstop⟩ := ih
    exact ⟨_, stop, rfl, .valued (List.contains_iff_mem.1 hvalued) hoptions, hstop⟩
  | case6 option value rest hdashes hvalued hdash ih =>
    obtain ⟨options, stop, heq, hoptions, hstop⟩ := ih
    rw [heq]
    exact ⟨option :: options, stop, rfl,
      .single hdash (mt List.contains_iff_mem.2 hvalued) hdashes hoptions, hstop⟩
  | case7 word next rest _ _ hword => exact ⟨[], _, rfl, .none, .word (next :: rest) hword⟩

theorem AddsAtMost.behind {word : String} {arguments more : List String}
    (h : AddsAtMost word arguments more) (before : List String) :
    AddsAtMost word (before ++ arguments) (before ++ more) := by
  rcases h with rfl | ⟨front, after, rfl, rfl⟩
  · exact Or.inl rfl
  · exact Or.inr ⟨before ++ front, after, (List.append_assoc _ _ _).symm,
      (List.append_assoc _ _ _).symm⟩

theorem withCommand_adds (arguments : List String) :
    AddsAtMost "type" arguments (withCommand arguments) := by
  cases arguments with
  | nil => exact Or.inl rfl
  | cons word rest =>
    rw [withCommand_cons]
    by_cases hword : word ∈ commandWords
    · rw [if_pos hword]
      exact Or.inl rfl
    · rw [if_neg hword]
      exact Or.inr ⟨[], word :: rest, rfl, rfl⟩

theorem EndsOptions.adds {rest : List String} (h : EndsOptions rest) :
    AddsAtMost "type" rest (supplyCommand rest) := by
  cases h with
  | nothing => exact Or.inl rfl
  | noValue hoption => exact Or.inl (supplyCommand_last (isDashed_of_valued hoption))
  | dashes rest =>
    rw [supplyCommand_dashes]
    exact (withCommand_adds rest).behind ["--"]
  | word rest hword =>
    rw [supplyCommand_word hword]
    exact withCommand_adds _

theorem EndsOptions.again {rest : List String} (h : EndsOptions rest) :
    supplyCommand (supplyCommand rest) = supplyCommand rest := by
  cases h with
  | nothing => rfl
  | noValue hoption =>
    have hlast := supplyCommand_last (isDashed_of_valued hoption)
    rw [hlast, hlast]
  | dashes rest => rw [supplyCommand_dashes, supplyCommand_dashes, withCommand_withCommand]
  | @word word rest hword =>
    rw [supplyCommand_word hword, withCommand_cons]
    by_cases hknown : word ∈ commandWords
    · rw [if_pos hknown, supplyCommand_word hword, withCommand_cons, if_pos hknown]
    · rw [if_neg hknown, supplyCommand_word (by decide), withCommand_cons, if_pos (by decide)]

theorem supplyCommand_adds (arguments : List String) :
    AddsAtMost "type" arguments (supplyCommand arguments) := by
  obtain ⟨options, rest, rfl, hoptions, hrest⟩ := exists_options arguments
  rw [supplyCommand_options hoptions]
  exact hrest.adds.behind options

theorem supplyCommand_supplyCommand (arguments : List String) :
    supplyCommand (supplyCommand arguments) = supplyCommand arguments := by
  obtain ⟨options, rest, rfl, hoptions, hrest⟩ := exists_options arguments
  rw [supplyCommand_options hoptions, supplyCommand_options hoptions, hrest.again]

theorem supplyCommand_front {options : List String} (h : AreOptions options) (ended : Bool) :
    supplyCommand (front options ended) = front options ended := by
  rw [front, supplyCommand_options h]
  cases ended with
  | false => rfl
  | true => rw [if_pos rfl, supplyCommand_dashes, withCommand]

theorem supplyCommand_front_word {options : List String} (h : AreOptions options) {ended : Bool}
    {word : String} (rest : List String) (hword : ended = true ∨ ¬ isDashed word) :
    supplyCommand (front options ended ++ word :: rest) =
      front options ended ++ withCommand (word :: rest) := by
  rw [front, List.append_assoc, List.append_assoc, supplyCommand_options h]
  cases ended with
  | false => exact congrArg (options ++ ·) (supplyCommand_word (hword.resolve_left (by decide)))
  | true => exact congrArg (options ++ ·) (supplyCommand_dashes (word :: rest))

/-- What stands where a command is due gets the command `type` in front of it unless it is one. A
line that ends before that place, or within an option, stays as it is. Nothing else is ever put in,
and a line to which a command has been supplied needs no other. -/
theorem one_command_is_supplied :
    (∀ (program : String) (options : List String), AreOptions options →
      (∀ (ended : Bool) (word : String) (rest : List String), ended = true ∨ ¬ isDashed word →
        supplyCommandAfterName (program :: front options ended ++ word :: rest) =
          program :: front options ended ++
            if word ∈ commandWords then word :: rest else "type" :: word :: rest) ∧
      (∀ ended : Bool, supplyCommandAfterName (program :: front options ended) =
        program :: front options ended) ∧
      ∀ option ∈ valuedOptions, supplyCommandAfterName (program :: options ++ [option]) =
        program :: options ++ [option]) ∧
    (∀ arguments : List String, supplyCommandAfterName (supplyCommandAfterName arguments) =
      supplyCommandAfterName arguments) ∧
    ∀ arguments : List String,
      AddsAtMost "type" arguments (supplyCommandAfterName arguments) := by
  refine ⟨fun program options h => ⟨fun ended word rest hword => ?_, fun ended => ?_,
    fun option hoption => ?_⟩, fun arguments => ?_, fun arguments => ?_⟩
  · rw [List.cons_append, supplyCommandAfterName, supplyCommand_front_word h rest hword,
      withCommand_cons]
    rfl
  · rw [supplyCommandAfterName, supplyCommand_front h]
  · rw [List.cons_append, supplyCommandAfterName, supplyCommand_options h,
      supplyCommand_last (isDashed_of_valued hoption)]
  · cases arguments with
    | nil => rfl
    | cons program rest =>
      exact congrArg (program :: ·) (supplyCommand_supplyCommand rest)
  · cases arguments with
    | nil => exact Or.inl rfl
    | cons program rest => exact (supplyCommand_adds rest).behind [program]

/-- The values look like two dashes and like a command. -/
def misleadingOptions : List String := ["--workspace", "--", "-v", "-p", "stats"]

theorem areOptions_misleading : AreOptions misleadingOptions :=
  .valued (by decide) (.single (by decide) (by decide) (by decide) (.valued (by decide) .none))

theorem a_command_is_supplied_behind_misleading_values :
    supplyCommandAfterName ("symbols" :: misleadingOptions ++ ["java.util.List", "type"]) =
        "symbols" :: misleadingOptions ++ ["type", "java.util.List", "type"] ∧
      supplyCommandAfterName ("symbols" :: misleadingOptions ++ ["--", "--project", "app"]) =
        "symbols" :: misleadingOptions ++ ["--", "type", "--project", "app"] ∧
      supplyCommandAfterName ("symbols" :: misleadingOptions ++ ["--project"]) =
        "symbols" :: misleadingOptions ++ ["--project"] := by
  obtain ⟨hword, -, hoption⟩ :=
    one_command_is_supplied.1 "symbols" misleadingOptions areOptions_misleading
  have hplain := hword false "java.util.List" ["type"] (Or.inr (by decide))
  have hended := hword true "--project" ["app"] (Or.inl rfl)
  rw [if_neg (by decide)] at hplain hended
  exact ⟨hplain, hended, hoption "--project" (by decide)⟩

end ClasspathSymbols.Arguments
