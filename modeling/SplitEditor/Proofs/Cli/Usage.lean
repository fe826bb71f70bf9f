import SplitEditor.Proofs.Cli.Options
import SplitEditor.Proofs.Text.Numeral

/-! The words of a command line: how a command is spelled, given how lines and columns are, and what
is read as one. All that is spelled in digits is read, wherever the options stand. Beyond the usage
go a zero, a plus sign, and words behind the parameters of any command but one. -/

namespace SplitEditor.Cli

def spelled (l c : String) : Query → List String
  | .hover => ["hover", l, c]
  | .definition => ["definition", l, c]
  | .references => ["references", l, c]
  | .rename name => ["rename", l, c, name]
  | .highlights => ["highlight", l, c]

/-- The words of a command, with lines and columns spelled in one way or another. -/
inductive Form (Spells : UInt32 → String → Prop) : Command → List String → Prop
  | check : Form Spells .check ["check"]
  | compile : Form Spells (.compile false) ["compile"]
  | compileJson : Form Spells (.compile true) ["compile", "--json"]
  | query (query : Query) {line column : UInt32} {l c : String} (hline : Spells line l)
    (hcolumn : Spells column c) : Form Spells (.query query line column) (spelled l c query)

def InDigits (v : UInt32) (text : String) : Prop := Numeral.Decimal v.toNat text.toList

def FromOne (v : UInt32) (text : String) : Prop := 0 < v ∧ InDigits v text

def MaybeSigned (v : UInt32) (text : String) : Prop := Numeral.Signed v.toNat text.toList

/-- What is read as a command: its words and, behind the parameters of all commands but `compile`,
any others. -/
inductive Accepts (command : Command) : List String → Prop
  | intro {listed surplus : List String} (hform : Form MaybeSigned command listed)
    (hsurplus : surplus = [] ∨ ∀ json, command ≠ .compile json) :
    Accepts command (listed ++ surplus)

/-- What is read as a command although it is not spelled like that: words stand behind the
parameters, or a number is zero or has a plus sign. -/
inductive Beyond : Command → List String → Prop
  | surplus {command : Command} {listed : List String} (hform : Form MaybeSigned command listed)
    (hcommand : ∀ json, command ≠ .compile json) (w : String) (more : List String) :
    Beyond command (listed ++ w :: more)
  | number (query : Query) {line column : UInt32} {l c : String} (hline : MaybeSigned line l)
    (hcolumn : MaybeSigned column c) (h : ¬(FromOne line l ∧ FromOne column c)) :
    Beyond (.query query line column) (spelled l c query)

/-- Options aside, the arguments are words for a command, and a script behind them. -/
def LaidOut (Words : Command → List String → Prop) (args : List String) (parsed : Arguments) :
    Prop :=
  ∃ settings words, Interleaved settings (words ++ [parsed.script]) args ∧
    Plain (words ++ [parsed.script]) ∧ Words parsed.command words ∧
    parsed.config = lastFile .config settings ∧ parsed.artifact = lastFile .artifact settings

variable {args params words : List String} {parameter text name script : String} {v : UInt32}
  {command : Command} {parsed : Arguments} {query : Query} {found : Split}
  {settings : List Setting}

namespace Arguments

/-! ### Numbers and positions -/

theorem number_some_eq_ok_iff : number parameter (some text) = .ok v ↔ MaybeSigned v text := by
  have hread : Numeral.parse 10 0x100000000 text.toList = .ok v.toNat ↔
      MaybeSigned v text ∧ v.toNat < 0x100000000 := Numeral.parse_eq_ok_iff (by decide)
  cases hparse : Numeral.parse 10 0x100000000 text.toList with
  | error fault =>
    simp only [number, hparse, reduceCtorEq, false_iff]
    intro h
    exact absurd (hparse.symm.trans (hread.2 ⟨h, v.toNat_lt⟩)) nofun
  | ok n =>
    obtain ⟨hsigned, hlt⟩ := (Numeral.parse_eq_ok_iff (by decide)).1 hparse
    simp only [number, hparse, Except.ok.injEq]
    constructor
    · rintro rfl
      rw [MaybeSigned, UInt32.toNat_ofNat_of_lt' hlt]
      exact hsigned
    · intro h
      have hn := Except.ok.inj (hparse.symm.trans (hread.2 ⟨h, v.toNat_lt⟩))
      rw [hn, UInt32.ofNat_toNat]

theorem position_eq_ok_iff_number : position query params = .ok command ↔
    ∃ line column, number "line" params[0]? = .ok line ∧ number "column" params[1]? = .ok column ∧
      command = .query query line column := by
  cases hline : number "line" params[0]? with
  | error => simp [position, hline, bind, Except.bind]
  | ok line =>
    cases hcolumn : number "column" params[1]? with
    | error => simp [position, hline, hcolumn, bind, Except.bind]
    | ok column => simp [position, hline, hcolumn, bind, Except.bind, pure, Except.pure, eq_comm]

theorem position_eq_ok_iff : position query params = .ok command ↔
    ∃ l c surplus line column, params = l :: c :: surplus ∧ MaybeSigned line l ∧
      MaybeSigned column c ∧ command = .query query line column := by
  rw [position_eq_ok_iff_number]
  rcases params with _ | ⟨l, _ | ⟨c, surplus⟩⟩
  · simp [number]
  · simp [number]
  · simp only [List.getElem?_cons_zero, List.getElem?_cons_succ, number_some_eq_ok_iff,
      List.cons.injEq]
    constructor
    · rintro ⟨line, column, hline, hcolumn, hcommand⟩
      exact ⟨l, c, surplus, line, column, ⟨rfl, rfl, rfl⟩, hline, hcolumn, hcommand⟩
    · rintro ⟨_, _, _, line, column, ⟨rfl, rfl, rfl⟩, hline, hcolumn, hcommand⟩
      exact ⟨line, column, hline, hcolumn, hcommand⟩

/-! ### Commands -/

theorem exists_spelled (query : Query) (l c : String) (surplus : List String) :
    ∃ name more, spelled l c query ++ surplus = name :: l :: c :: more ∧
      readCommand name (l :: c :: more) = position query (l :: c :: more) := by
  cases query with
  | rename => exact ⟨_, _, rfl, rfl⟩
  | _ => exact ⟨_, surplus, rfl, rfl⟩

theorem exists_cons_of_accepts (h : Accepts command words) :
    ∃ name params, words = name :: params := by
  obtain ⟨hform, -⟩ := h
  cases hform with
  | query query =>
    obtain ⟨name, more, hwords, -⟩ := exists_spelled query _ _ _
    exact ⟨_, _, hwords⟩
  | _ => exact ⟨_, _, rfl⟩

theorem accepts_of_position (h : position query params = .ok command)
    (hname : ∀ l c more, params = l :: c :: more →
      ∃ surplus, name :: params = spelled l c query ++ surplus) :
    Accepts command (name :: params) := by
  obtain ⟨l, c, more, line, column, hparams, hline, hcolumn, rfl⟩ := position_eq_ok_iff.1 h
  obtain ⟨surplus, hwords⟩ := hname l c more hparams
  rw [hwords]
  exact .intro (.query query hline hcolumn) (.inr nofun)

theorem accepts_of_readCommand (h : readCommand name params = .ok command) :
    Accepts command (name :: params) := by
  unfold readCommand at h
  -- The queries but `rename` have no more than a position; they are left to the end.
  split at h
  case h_1 =>
    obtain rfl := Except.ok.inj h
    exact @Accepts.intro _ ["check"] _ .check (.inr nofun)
  case h_2 =>
    split at h
    · obtain rfl := Except.ok.inj h
      exact @Accepts.intro _ _ [] .compile (.inl rfl)
    · obtain rfl := Except.ok.inj h
      exact @Accepts.intro _ _ [] .compileJson (.inl rfl)
    · cases h
  case h_6 =>
    split at h
    · next newName hnew =>
      refine accepts_of_position h ?_
      rintro l c more rfl
      obtain ⟨surplus, rfl⟩ : ∃ surplus, more = newName :: surplus :=
        List.head?_eq_some_iff.1 (List.head?_eq_getElem? ▸ hnew)
      exact ⟨surplus, rfl⟩
    · cases h
  case h_8 => cases h
  all_goals exact accepts_of_position h fun l c more hparams => ⟨more, congrArg _ hparams⟩

theorem readCommand_of_accepts (h : Accepts command words) (hwords : words = name :: params) :
    readCommand name params = .ok command := by
  obtain ⟨hform, hsurplus⟩ := h
  cases hform with
  | check =>
    obtain ⟨rfl, rfl⟩ := List.cons.inj hwords
    rfl
  | compile =>
    obtain rfl := hsurplus.resolve_right fun h => h false rfl
    obtain ⟨rfl, rfl⟩ := List.cons.inj hwords
    rfl
  | compileJson =>
    obtain rfl := hsurplus.resolve_right fun h => h true rfl
    obtain ⟨rfl, rfl⟩ := List.cons.inj hwords
    rfl
  | @query query line column l c hline hcolumn =>
    obtain ⟨name', more, hspelled, hread⟩ := exists_spelled query l c _
    obtain ⟨rfl, rfl⟩ := List.cons.inj (hspelled.symm.trans hwords)
    rw [hread, position_eq_ok_iff]
    exact ⟨l, c, more, line, column, rfl, hline, hcolumn, rfl⟩

/-! ### Command lines -/

theorem parse_eq_map {config artifact : Option String}
    (h : split ⟨none, none, []⟩ args = .ok ⟨config, artifact, name :: params ++ [script]⟩) :
    parse args = (readCommand name params).map (⟨config, artifact, ·, script⟩) := by
  have hlast : (name :: params ++ [script]).getLast? = some script := List.getLast?_concat
  have hparams : (name :: params ++ [script]).dropLast.drop 1 = params := by
    rw [List.dropLast_concat]
    rfl
  obtain ⟨w, rest, hrest⟩ := List.exists_cons_of_ne_nil (List.concat_ne_nil script params)
  rw [parse, h]
  simp only [bind, Except.bind]
  rw [hlast, hparams, List.cons_append, hrest]
  dsimp only
  cases readCommand name params <;> rfl

theorem parse_error_of_split {config artifact : Option String} (hwords : words.length < 2)
    (h : split ⟨none, none, []⟩ args = .ok ⟨config, artifact, words⟩) :
    parse args = .error .noCommandAndScript := by
  rw [parse, h]
  rcases words with _ | ⟨w, _ | ⟨w', rest⟩⟩
  · rfl
  · rfl
  · exact absurd hwords (by simp)

theorem laidOut_of_parse (h : parse args = .ok parsed) : LaidOut Accepts args parsed := by
  cases hsplit : split ⟨none, none, []⟩ args with
  | error =>
    rw [parse, hsplit] at h
    cases h
  | ok found =>
    obtain ⟨settings, words, hargs, hplain, rfl⟩ := interleaved_of_split hsplit
    rw [Split.extend_empty] at hsplit
    -- There is a script behind all other words only if there are two words at least.
    rcases List.eq_nil_or_concat words with rfl | ⟨_ | ⟨name, params⟩, script, hwords⟩
    · cases (parse_error_of_split (by simp) hsplit).symm.trans h
    · subst hwords
      cases (parse_error_of_split (by simp) hsplit).symm.trans h
    · rw [List.concat_eq_append] at hwords
      subst hwords
      rw [parse_eq_map hsplit] at h
      cases hcommand : readCommand name params with
      | error =>
        rw [hcommand] at h
        cases h
      | ok command =>
        rw [hcommand] at h
        obtain rfl := Except.ok.inj h
        exact ⟨settings, name :: params, hargs, hplain, accepts_of_readCommand hcommand, rfl, rfl⟩

theorem parse_of_laidOut (h : LaidOut Accepts args parsed) : parse args = .ok parsed := by
  obtain ⟨settings, words, hargs, hplain, hcommand, hconfig, hartifact⟩ := h
  obtain ⟨name, params, rfl⟩ := exists_cons_of_accepts hcommand
  have hsplit := split_of_interleaved ⟨none, none, []⟩ hargs hplain
  rw [Split.extend_empty] at hsplit
  rw [parse_eq_map hsplit, readCommand_of_accepts hcommand rfl, ← hconfig, ← hartifact]
  rfl

theorem parse_eq_ok_iff : parse args = .ok parsed ↔ LaidOut Accepts args parsed :=
  ⟨laidOut_of_parse, parse_of_laidOut⟩

end Arguments

/-! ### Spelled in digits -/

theorem inDigits_toString (v : UInt32) : InDigits v (toString v.toNat) := by
  rw [InDigits, Nat.toString_eq_ofList_toDigits, String.toList_ofList]
  exact Numeral.decimal_toDigits v.toNat

theorem InDigits.maybeSigned (h : InDigits v text) : MaybeSigned v text := .plain h

theorem InDigits.ne_flag (h : InDigits v text) (option : FileOption) : text ≠ option.flag := by
  rintro rfl
  cases option with
  | config => exact absurd (h.isDigit '-' (by decide)) (by decide)
  | artifact => exact absurd (h.isDigit '-' (by decide)) (by decide)

namespace Form
variable {Spells Spells' : UInt32 → String → Prop}

theorem imp (h : Form Spells command words) (hspells : ∀ v text, Spells v text → Spells' v text) :
    Form Spells' command words := by
  cases h with
  | check => exact .check
  | compile => exact .compile
  | compileJson => exact .compileJson
  | query query hline hcolumn =>
    exact .query query (hspells _ _ hline) (hspells _ _ hcolumn)

theorem accepts (h : Form MaybeSigned command words) : Accepts command words := by
  have haccepts := @Accepts.intro _ _ [] h (.inl rfl)
  rwa [List.append_nil] at haccepts

theorem plain (h : Form InDigits command words)
    (hname : ∀ name line column, command = .query (.rename name) line column → Plain [name]) :
    Plain words := by
  cases h with
  | check | compile | compileJson => decide
  | @query query line column l c hline hcolumn =>
    have hposition : Plain [l, c] :=
      plain_cons.2 ⟨hline.ne_flag, plain_cons.2 ⟨hcolumn.ne_flag, fun _ => List.not_mem_nil⟩⟩
    have hquery (w : String) (hw : Plain [w]) : Plain [w, l, c] :=
      (plain_append [w] [l, c]).2 ⟨hw, hposition⟩
    cases query with
    | rename name =>
      have hrename := hquery "rename" (by decide)
      exact (plain_append ["rename", l, c] [name]).2 ⟨hrename, hname name line column rfl⟩
    | hover | definition | references | highlights => exact hquery _ (by decide)

end Form

/-! ### The usage, and what goes beyond it -/

namespace Form
variable {Spells Spells' : UInt32 → String → Prop} {words' : List String} {line column : UInt32}

theorem exists_of_query (h : Form Spells (.query query line column) words) :
    ∃ l c, words = spelled l c query ∧ Spells line l ∧ Spells column c := by
  cases h with
  | query _ hline hcolumn => exact ⟨_, _, rfl, hline, hcolumn⟩

theorem length_eq (h : Form Spells command words) (h' : Form Spells' command words') :
    words.length = words'.length := by
  cases h with
  | check | compile | compileJson =>
    cases h'
    rfl
  | query query =>
    obtain ⟨l, c, rfl, -⟩ := h'.exists_of_query
    cases query <;> rfl

end Form

theorem spelled_inj {l c l' c' : String} (h : spelled l c query = spelled l' c' query) :
    l = l' ∧ c = c' := by
  cases query <;> simp_all [spelled]

theorem FromOne.maybeSigned (h : FromOne v text) : MaybeSigned v text := h.2.maybeSigned

theorem Beyond.accepts (h : Beyond command words) : Accepts command words := by
  cases h with
  | surplus hform hcommand => exact .intro hform (.inr hcommand)
  | number query hline hcolumn => exact (Form.query query hline hcolumn).accepts

theorem Beyond.not_usage (h : Beyond command words) : ¬Form FromOne command words := by
  intro husage
  cases h with
  | surplus hform _ w more =>
    have hlength := hform.length_eq husage
    rw [List.length_append, List.length_cons] at hlength
    omega
  | number query hline hcolumn h =>
    obtain ⟨l, c, hwords, hline, hcolumn⟩ := husage.exists_of_query
    obtain ⟨rfl, rfl⟩ := spelled_inj hwords
    exact h ⟨hline, hcolumn⟩

theorem accepts_iff :
    Accepts command words ↔ Form FromOne command words ∨ Beyond command words := by
  constructor
  · intro h
    cases h with
    | @intro listed surplus hform hsurplus =>
      cases surplus with
      | cons w more =>
        exact .inr (.surplus hform (hsurplus.resolve_left (List.cons_ne_nil w more)) w more)
      | nil =>
        rw [List.append_nil]
        cases hform with
        | check => exact .inl .check
        | compile => exact .inl .compile
        | compileJson => exact .inl .compileJson
        | @query query line column l c hline hcolumn =>
          by_cases h : FromOne line l ∧ FromOne column c
          · exact .inl (.query query h.1 h.2)
          · exact .inr (.number query hline hcolumn h)
  · rintro (h | h)
    · exact (h.imp fun _ _ => FromOne.maybeSigned).accepts
    · exact h.accepts

namespace LaidOut
variable {Words Words' : Command → List String → Prop}

theorem congr (h : ∀ command words, Words command words ↔ Words' command words) :
    LaidOut Words args parsed ↔ LaidOut Words' args parsed := by
  simp only [LaidOut, h]

theorem or_iff : LaidOut (fun command words => Words command words ∨ Words' command words) args
    parsed ↔ LaidOut Words args parsed ∨ LaidOut Words' args parsed := by
  simp only [LaidOut, or_and_right, and_or_left, exists_or]

theorem not_usage (h : LaidOut Beyond args parsed) : ¬LaidOut (Form FromOne) args parsed := by
  obtain ⟨settings, words, hargs, hplain, hbeyond, -⟩ := h
  rintro ⟨settings', words', hargs', hplain', husage, -⟩
  obtain rfl := List.append_cancel_right (hargs.unique hplain hargs' hplain')
  exact hbeyond.not_usage husage

end LaidOut

/-! ### Main results -/

/-- A command that is spelled in digits is read as it is spelled, wherever the options stand, and
of every option the last file counts. -/
theorem parse_interleaved (hform : Form InDigits command words)
    (hname : ∀ name line column, command = .query (.rename name) line column → Plain [name])
    (hscript : Plain [script]) (hargs : Interleaved settings (words ++ [script]) args) :
    Arguments.parse args =
      .ok ⟨lastFile .config settings, lastFile .artifact settings, command, script⟩ := by
  have haccepts := (hform.imp fun _ _ => InDigits.maybeSigned).accepts
  have hplain := (plain_append words [script]).2 ⟨hform.plain hname, hscript⟩
  exact Arguments.parse_eq_ok_iff.2 ⟨settings, words, hargs, hplain, haccepts, rfl, rfl⟩

/-- Files may be called like commands and options. -/
theorem parse_interleaved_rename : Arguments.parse ["--config", "check", "rename", "3",
    "--artifact", "--config", "007", "level", "--config", "new.yaml", "check"] =
      .ok ⟨some "new.yaml", some "--config", .query (.rename "level") 3 7, "check"⟩ := by
  have hline : InDigits 3 "3" := inDigits_toString 3
  have hcolumn : InDigits 7 "007" := ⟨by decide, List.all_eq_true.1 (by decide), by decide⟩
  have hname (name : String) (line column : UInt32)
      (h : Command.query (.rename "level") 3 7 = .query (.rename name) line column) :
      Plain [name] := by
    cases h
    decide
  exact parse_interleaved (.query (.rename "level") hline hcolumn) hname (by decide)
    (.setting ⟨.config, "check"⟩ <| .word "rename" <| .word "3" <|
      .setting ⟨.artifact, "--config"⟩ <| .word "007" <| .word "level" <|
      .setting ⟨.config, "new.yaml"⟩ <| .word "check" .nil)

/-- The command lines that are read are those of the usage and those that go beyond it by words
behind the parameters, by a zero or by a plus sign. -/
theorem parse_iff_usage_or_beyond : Arguments.parse args = .ok parsed ↔
    LaidOut (Form FromOne) args parsed ∨ LaidOut Beyond args parsed := by
  rw [Arguments.parse_eq_ok_iff, LaidOut.congr fun _ _ => accepts_iff, LaidOut.or_iff]

/-- A second script is overlooked, and neither a zero nor a plus sign is found fault with. -/
theorem beyond_usage_read :
    (∃ parsed, Arguments.parse ["check", "old.asl", "new.asl"] = .ok parsed ∧
      ¬LaidOut (Form FromOne) ["check", "old.asl", "new.asl"] parsed) ∧
    (∃ parsed, Arguments.parse ["hover", "0", "1", "a.asl"] = .ok parsed ∧
      ¬LaidOut (Form FromOne) ["hover", "0", "1", "a.asl"] parsed) ∧
    ∃ parsed, Arguments.parse ["hover", "+1", "1", "a.asl"] = .ok parsed ∧
      ¬LaidOut (Form FromOne) ["hover", "+1", "1", "a.asl"] parsed := by
  have hone : MaybeSigned 1 "1" := (inDigits_toString 1).maybeSigned
  have hzero : MaybeSigned 0 "0" := (inDigits_toString 0).maybeSigned
  have hplus : MaybeSigned 1 "+1" := .plus (inDigits_toString 1)
  refine ⟨⟨⟨none, none, .check, "new.asl"⟩, rfl, LaidOut.not_usage ?_⟩,
    ⟨⟨none, none, .query .hover 0 1, "a.asl"⟩, rfl, LaidOut.not_usage ?_⟩,
    ⟨none, none, .query .hover 1 1, "a.asl"⟩, rfl, LaidOut.not_usage ?_⟩
  case refine_1 =>
    exact ⟨[], _, interleaved_words _, by decide, .surplus .check nofun "old.asl" [], rfl, rfl⟩
  case refine_2 =>
    have hbeyond := Beyond.number .hover hzero hone fun h => absurd h.1.1 (by decide)
    exact ⟨[], _, interleaved_words _, by decide, hbeyond, rfl, rfl⟩
  case refine_3 =>
    have hbeyond := Beyond.number .hover hplus hone fun h => Numeral.not_decimal_plus _ h.1.2
    exact ⟨[], _, interleaved_words _, by decide, hbeyond, rfl, rfl⟩

end SplitEditor.Cli
