import SplitEditor.Cli.Arguments

/-! Options among the words of a command line. However they are mixed with the words, taking them
out leaves the words as they stood, and of every option the file that was named last. -/

namespace SplitEditor.Cli

inductive FileOption where
  | config
  | artifact
  deriving Repr, DecidableEq

def FileOption.flag : FileOption → String
  | config => "--config"
  | artifact => "--artifact"

structure Setting where
  option : FileOption
  file : String
  deriving Repr, DecidableEq

def lastFile (option : FileOption) (settings : List Setting) : Option String :=
  ((settings.filter (·.option = option)).getLast?).map (·.file)

/-- The arguments are the settings and the words, both in their order. -/
inductive Interleaved : List Setting → List String → List String → Prop
  | nil : Interleaved [] [] []
  | setting {settings : List Setting} {words args : List String} (s : Setting)
    (h : Interleaved settings words args) :
    Interleaved (s :: settings) words (s.option.flag :: s.file :: args)
  | word {settings : List Setting} {words args : List String} (w : String)
    (h : Interleaved settings words args) : Interleaved settings (w :: words) (w :: args)

def Plain (words : List String) : Prop := ∀ option : FileOption, option.flag ∉ words

instance (words : List String) : Decidable (Plain words) :=
  decidable_of_iff ("--config" ∉ words ∧ "--artifact" ∉ words)
    ⟨fun h option => match option with
      | .config => h.1
      | .artifact => h.2, fun h => ⟨h .config, h .artifact⟩⟩

namespace Split

def set (found : Split) (s : Setting) : Split :=
  match s.option with
  | .config => { found with config := some s.file }
  | .artifact => { found with artifact := some s.file }

def push (found : Split) (w : String) : Split := { found with rest := found.rest ++ [w] }

def extend (found : Split) (settings : List Setting) (words : List String) : Split :=
  ⟨(lastFile .config settings).or found.config, (lastFile .artifact settings).or found.artifact,
    found.rest ++ words⟩

end Split

variable {found found' : Split} {settings : List Setting} {words args : List String}
  {w : String}

theorem plain_cons :
    Plain (w :: words) ↔ (∀ option : FileOption, w ≠ option.flag) ∧ Plain words := by
  simp only [Plain, List.mem_cons, not_or, forall_and, ne_eq, eq_comm]

theorem plain_append (words words' : List String) :
    Plain (words ++ words') ↔ Plain words ∧ Plain words' := by
  simp only [Plain, List.mem_append, not_or, forall_and]

theorem interleaved_words (words : List String) : Interleaved [] words words := by
  induction words with
  | nil => exact .nil
  | cons w words ih => exact .word w ih

theorem lastFile_cons (option : FileOption) (s : Setting) (settings : List Setting) :
    lastFile option (s :: settings) =
      (lastFile option settings).or (if s.option = option then some s.file else none) := by
  by_cases h : s.option = option
  · simp only [lastFile, List.filter_cons, h, decide_true, if_true, List.getLast?_cons]
    cases (settings.filter (·.option = option)).getLast? <;> rfl
  · simp [lastFile, h]

namespace Split

@[simp] theorem extend_nil (found : Split) : found.extend [] [] = found := by
  simp [extend, lastFile]

theorem extend_empty (settings : List Setting) (words : List String) :
    (⟨none, none, []⟩ : Split).extend settings words =
      ⟨lastFile .config settings, lastFile .artifact settings, words⟩ := by
  simp [extend]

theorem extend_setting (found : Split) (s : Setting) (settings : List Setting)
    (words : List String) :
    found.extend (s :: settings) words = (found.set s).extend settings words := by
  obtain ⟨option, file⟩ := s
  cases option <;> simp [extend, set, lastFile_cons]

theorem extend_word (found : Split) (settings : List Setting) (w : String) (words : List String) :
    found.extend settings (w :: words) = (found.push w).extend settings words := by
  simp [extend, push]

end Split

namespace Arguments

theorem split_setting (found : Split) (s : Setting) (args : List String) :
    split found (s.option.flag :: s.file :: args) = split (found.set s) args := by
  obtain ⟨option, file⟩ := s
  cases option <;> exact split.eq_def _ _

theorem split_word (found : Split) (hw : ∀ option : FileOption, w ≠ option.flag)
    (args : List String) : split found (w :: args) = split (found.push w) args := by
  have hconfig : w ≠ "--config" := hw .config
  have hartifact : w ≠ "--artifact" := hw .artifact
  rw [split.eq_6] <;> simp_all [Split.push]

theorem split_of_interleaved (found : Split) (h : Interleaved settings words args)
    (hplain : Plain words) : split found args = .ok (found.extend settings words) := by
  induction h generalizing found with
  | nil => rw [split, Split.extend_nil]
  | setting s _ ih => rw [split_setting, ih _ hplain, Split.extend_setting]
  | word w _ ih =>
    obtain ⟨hw, hwords⟩ := plain_cons.1 hplain
    rw [split_word found hw, ih _ hwords, Split.extend_word]

theorem exists_interleaved_setting (s : Setting)
    (h : ∃ settings words, Interleaved settings words args ∧ Plain words ∧
      found' = (found.set s).extend settings words) :
    ∃ settings words, Interleaved settings words (s.option.flag :: s.file :: args) ∧ Plain words ∧
      found' = found.extend settings words := by
  obtain ⟨settings, words, hargs, hplain, hfound⟩ := h
  refine ⟨s :: settings, words, .setting s hargs, hplain, ?_⟩
  rw [Split.extend_setting]
  exact hfound

theorem interleaved_of_split (h : split found args = .ok found') :
    ∃ settings words, Interleaved settings words args ∧ Plain words ∧
      found' = found.extend settings words := by
  fun_induction split found args with
  | case1 found =>
    obtain rfl := Except.ok.inj h
    exact ⟨[], [], .nil, fun _ => List.not_mem_nil, (Split.extend_nil found).symm⟩
  | case2 found file args ih => exact exists_interleaved_setting ⟨.config, file⟩ (ih h)
  | case3 found file args ih => exact exists_interleaved_setting ⟨.artifact, file⟩ (ih h)
  | case4 => cases h
  | case5 => cases h
  | case6 found w args hconfig hartifact hconfigAlone hartifactAlone ih =>
    obtain ⟨settings, words, hargs, hplain, hfound⟩ := ih h
    have hw (option : FileOption) : w ≠ option.flag := by
      rintro rfl
      -- An option with arguments behind it would have taken one, and without any it is an error.
      cases args with
      | nil =>
        cases option with
        | config => exact hconfigAlone rfl rfl
        | artifact => exact hartifactAlone rfl rfl
      | cons file args =>
        cases option with
        | config => exact hconfig file args rfl rfl
        | artifact => exact hartifact file args rfl rfl
    refine ⟨settings, w :: words, .word w hargs, plain_cons.2 ⟨hw, hplain⟩, ?_⟩
    rw [Split.extend_word]
    exact hfound

end Arguments

theorem Interleaved.unique {settings' : List Setting} {words' : List String}
    (h : Interleaved settings words args) (hplain : Plain words)
    (h' : Interleaved settings' words' args) (hplain' : Plain words') : words = words' := by
  have hsplit := Arguments.split_of_interleaved ⟨none, none, []⟩ h hplain
  have hsplit' := Arguments.split_of_interleaved ⟨none, none, []⟩ h' hplain'
  have hfound := Except.ok.inj (hsplit.symm.trans hsplit')
  rw [Split.extend_empty, Split.extend_empty] at hfound
  exact congrArg Split.rest hfound

end SplitEditor.Cli
