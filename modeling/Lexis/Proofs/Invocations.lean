import Lexis.CommandLine
import Lexis.Proofs.Carets
import Lexis.Proofs.Cursor
import Lexis.Proofs.Encoding

/-!
# What the commands come to

A run of a command writes what the library gives: the tokens of the session over a file, or its
sanitized text. Where there is an error, what has been written stays, and the error is shown against
the text that its offset counts in.

* `Session.listFrom_eq_reading`: **a listing** has a line for each token that a session gives.
* `Invocation.run_tokens`, `Invocation.run_preprocess` and those before them: what a run comes to at
  each stage.
* `Invocation.ofStrings?_limited`: every file that is no option, with every limit of 64 bits, can be
  asked for.
* `Course.tells`: the listing of a file tells the tokens of its session and the error behind them.
* `commands_tell`: **the commands do what the library does**.
-/

namespace Lexis

open Text (IsLines unlines Word)

/-- **A course of a file**: the tokens of its session, if it has one, and the error that ends them
or stands in the way of a session, together with the text that the error is shown against. -/
inductive Course (settings : Settings) (file : String) (contents : Except Unreadable ByteArray) :
    List Token → Option (Error × List Char) → Prop
  /-- The file cannot be loaded, and there is no text. -/
  | unread (e : Error) (h : (load file contents).value = .error e) :
      Course settings file contents [] (some (e, []))
  /-- The text of the file cannot be sanitized. -/
  | refused (text : String) (e : Error) (hload : (load file contents).value = .ok text)
      (h : (sanitize file text.toList).value = .error e) :
      Course settings file contents [] (some (e, text.toList))
  /-- The session comes to an error in the sanitized text. -/
  | failed (s : Session) (tokens : List Token) (e : Error)
      (hs : (Session.ofFile settings file contents).value = .ok s)
      (h : s.Yields tokens (some e)) : Course settings file contents tokens (some (e, s.source.text))
  /-- The session comes to the end. -/
  | finished (s : Session) (tokens : List Token)
      (hs : (Session.ofFile settings file contents).value = .ok s) (h : s.Yields tokens none) :
      Course settings file contents tokens none

/-- **A run has failed** with an error. Its report goes to the error stream, with a line behind it
that names the file. If it is too wide to be laid out, there is another exit code. -/
structure Outcome.Fails (o : Outcome) (file : String) (e : Error) (source : List Char) : Prop where
  outcome : (∃ report, (Report.ofError e source).text? = some report ∧ o.exitCode = 1 ∧
      o.stderr = report ++ "Error: lexing " ++ file ++ " failed\n") ∨
    ((Report.ofError e source).text? = none ∧ o.exitCode = 101)
  tooWide : o.exitCode = 101 ↔
    ∃ excerpt, (Report.ofError e source).excerpt? = some excerpt ∧ 65535 < excerpt.column + 1

/-- **A run tells a course**: it lists the tokens, one a line, and succeeds without a word, or fails
with the error. -/
structure Outcome.Tells (o : Outcome) (file : String) (tokens : List Token)
    (failure? : Option (Error × List Char)) : Prop where
  listed : IsLines o.stdout.toList (tokens.map (·.text.toList)) []
  success : o.exitCode = 0 ∧ o.stderr = "" ↔ failure? = none
  failed : ∀ e source, failure? = some (e, source) → o.Fails file e source

variable {file : String} {contents : Except Unreadable ByteArray} {settings : Settings}

/-! ## Listings -/

namespace Session

variable {s : Session} {tokens : List Token} {error? : Option Error}

/-- **A listing** has a line for each token that is left, behind what has been written before, and
leaves alone what the session is over. -/
theorem listFrom_eq_reading {written : String} {count : Nat} {events : List Event}
    (hs : s.status = .scanning) :
    (s.listFrom written count events).written.toList =
        written.toList ++ unlines (s.reading.tokens.map (·.text.toList)) ∧
      (s.listFrom written count events).error? = s.reading.error? ∧
      (s.listFrom written count events).session.source = s.source := by
  induction written, count, events, s using listFrom.induct with
  | case1 written count events s t next more hnext ih =>
    obtain ⟨-, -, hsource⟩ := s.session_ask_keeps .token
    have hstatus := scanning_next hs (congrArg Step.pull hnext)
    have hreading := reading_eq hs
    rw [ask, hnext] at hsource
    rw [hnext] at hstatus hreading
    obtain ⟨hwritten, herror, hsource'⟩ := ih hstatus
    rw [listFrom, hnext, hreading]
    refine ⟨?_, herror, hsource'.trans hsource⟩
    rw [hwritten]
    simp [String.toList_append, toString_string]
  | case2 written count events s next more hnext =>
    obtain ⟨-, -, hsource⟩ := s.session_ask_keeps .token
    rw [ask, hnext] at hsource
    rw [listFrom, hnext, reading_eq hs, hnext]
    exact ⟨(List.append_nil _).symm, rfl, hsource⟩
  | case3 written count events s next more e hnext =>
    obtain ⟨-, -, hsource⟩ := s.session_ask_keeps .token
    rw [ask, hnext] at hsource
    rw [listFrom, hnext, reading_eq hs, hnext]
    exact ⟨(List.append_nil _).symm, rfl, hsource⟩

/-- A token is shown in one line. -/
theorem lineFeed_not_mem_text {t : Token} (h : t ∈ s.reading.tokens) :
    '\n' ∉ t.text.toList := by
  obtain ⟨w, hw, kind, -, rfl⟩ := Settings.mem_read h
  have hword : w.text ∈ Text.words s.rest := by
    rw [← @Text.map_text_wordsFrom s.pos]
    exact List.mem_map_of_mem hw
  have hvalue : '\n' ∉ w.text := by
    intro hmem
    cases (Text.mem_words hword).2 '\n' hmem
  have hkind : '\n' ∉ kind.name.toList := by cases kind <;> simp [Kind.name]
  show '\n' ∉ (kind.name ++ " (" ++ String.ofList w.text ++ ")").toList
  simp [String.toList_append, hkind, hvalue]

theorem isLines_reading {written : List Char}
    (h : written = unlines (s.reading.tokens.map (·.text.toList))) :
    IsLines written (s.reading.tokens.map (·.text.toList)) [] := by
  refine ⟨h.trans (List.append_nil _).symm, ?_, List.not_mem_nil⟩
  intro line hline
  obtain ⟨t, ht, rfl⟩ := List.mem_map.1 hline
  exact lineFeed_not_mem_text ht

/-- Draining a session comes to what requests come to. -/
theorem drain_of_yields (hs : s.status = .scanning) (h : s.Yields tokens error?) :
    s.drain.tokens = tokens ∧ s.drain.error? = error? := by
  obtain ⟨htokens, herror⟩ := drain_eq_read hs
  obtain ⟨rfl, rfl⟩ := h.unique (yields_read hs)
  exact ⟨htokens, herror⟩

end Session

/-! ## Runs without the log -/

theorem Logged.eq_mk {α : Type} {x : Logged α} {value : α} (h : x.value = value) :
    x = ⟨value, x.events⟩ := by
  rw [← h]

namespace Invocation

variable {inv : Invocation}

/-- The log is not shown unless it is asked for. -/
theorem log_of_silent (hsilent : inv.verbosity = 0) (events : List Event) : inv.log events = "" := by
  have hnone : events.filter (fun e => e.level.verbosity ≤ inv.verbosity) = [] := by
    rw [List.filter_eq_nil_iff, hsilent]
    intro e _
    cases e.level <;> decide
  rw [log, hnone]
  rfl

theorem success_of_silent (hsilent : inv.verbosity = 0) (stdout : String) (events : List Event) :
    inv.success stdout events = ⟨0, stdout, ""⟩ := by
  rw [success, log_of_silent hsilent]

theorem failure_of_silent (hsilent : inv.verbosity = 0) {stdout : String} {events : List Event}
    {e : Error} {source : List Char} :
    inv.failure stdout events e source = inv.failure stdout [] e source := by
  unfold failure
  rw [log_of_silent hsilent, log_of_silent hsilent]

/-- A run without a text. -/
theorem run_of_load_error (hsilent : inv.verbosity = 0) {e : Error}
    (hload : (load inv.file contents).value = .error e) :
    inv.run contents = inv.failure "" [] e [] := by
  unfold run
  rw [Logged.eq_mk hload]
  exact failure_of_silent hsilent

/-- A run with a text that is refused, which is the same for both commands. -/
theorem run_of_sanitize_error (hsilent : inv.verbosity = 0) {text : String} {e : Error}
    (hload : (load inv.file contents).value = .ok text)
    (hsanitize : (sanitize inv.file text.toList).value = .error e) :
    inv.run contents = inv.failure "" [] e text.toList := by
  unfold run
  rw [Logged.eq_mk hload]
  cases inv.command with
  | tokens =>
    show inv.runTokens text.toList _ = _
    unfold runTokens Session.start
    rw [Logged.eq_mk hsanitize]
    exact failure_of_silent hsilent
  | preprocess =>
    show inv.runPreprocess text.toList _ = _
    unfold runPreprocess
    rw [Logged.eq_mk hsanitize]
    exact failure_of_silent hsilent

/-- **The sanitized text is shown** and nothing else. -/
theorem run_preprocess (hsilent : inv.verbosity = 0) (hcommand : inv.command = .preprocess)
    {text : String} {source : Sanitized} (hload : (load inv.file contents).value = .ok text)
    (hsanitize : (sanitize inv.file text.toList).value = .ok source) :
    inv.run contents = ⟨0, String.ofList source.text, ""⟩ := by
  unfold run
  rw [Logged.eq_mk hload, hcommand]
  show inv.runPreprocess text.toList _ = _
  unfold runPreprocess
  rw [Logged.eq_mk hsanitize]
  exact success_of_silent hsilent _ _

/-- **The tokens are listed** up to the end or the first error, which is shown against the sanitized
text. -/
theorem run_tokens (hsilent : inv.verbosity = 0) (hcommand : inv.command = .tokens)
    {text : String} {source : Sanitized} (hload : (load inv.file contents).value = .ok text)
    (hsanitize : (sanitize inv.file text.toList).value = .ok source) :
    let reading := (Session.ofSanitized { limit := inv.limit } inv.file source).reading
    ∃ written, written.toList = unlines (reading.tokens.map (·.text.toList)) ∧
      (reading.error? = none → inv.run contents = ⟨0, written, ""⟩) ∧
      ∀ e, reading.error? = some e → inv.run contents = inv.failure written [] e source.text := by
  intro reading
  set s := Session.ofSanitized { limit := inv.limit } inv.file source
  obtain ⟨hwritten, herror, hsource⟩ := @Session.listFrom_eq_reading s "" 0 [] rfl
  change s.list.error? = reading.error? at herror
  change s.list.session.source = source at hsource
  have hrun : ∃ events, inv.run contents = inv.runTokens text.toList events := by
    unfold run
    rw [Logged.eq_mk hload, hcommand]
    exact ⟨_, rfl⟩
  have hstart : Session.start { limit := inv.limit } inv.file text.toList =
      ⟨.ok s, (sanitize inv.file text.toList).events⟩ := by
    rw [Session.start, Logged.eq_mk hsanitize]
    rfl
  obtain ⟨events, hrun⟩ := hrun
  rw [hrun, runTokens, hstart, ← herror]
  refine ⟨s.list.written, hwritten, ?_, ?_⟩
  · intro hnone
    simp only [hnone]
    exact success_of_silent hsilent _ _
  · intro e hsome
    simp only [hsome, hsource]
    exact failure_of_silent hsilent

/-- **A failure** writes nothing more than the error. -/
theorem fails_failure (hsilent : inv.verbosity = 0) (stdout : String) (e : Error)
    (source : List Char) :
    (inv.failure stdout [] e source).stdout = stdout ∧
      (inv.failure stdout [] e source).exitCode ≠ 0 ∧
      (inv.failure stdout [] e source).Fails inv.file e source := by
  have hwide := @Report.text?_eq_none_iff (Report.ofError e source)
  unfold failure
  rw [log_of_silent hsilent]
  cases htext : (Report.ofError e source).text? with
  | none => exact ⟨rfl, by simp, .inr ⟨htext, rfl⟩, iff_of_true rfl (hwide.1 htext)⟩
  | some report =>
    rw [htext] at hwide
    refine ⟨rfl, by simp, .inl ⟨report, htext, rfl, ?_⟩, iff_of_false (by simp) fun hlarge => ?_⟩
    · simp [toString_string, String.append_assoc]
    · cases hwide.2 hlarge

theorem tells_failure (hsilent : inv.verbosity = 0) {stdout : String} {tokens : List Token}
    {e : Error} {source : List Char}
    (hlines : IsLines stdout.toList (tokens.map (·.text.toList)) []) :
    (inv.failure stdout [] e source).Tells inv.file tokens (some (e, source)) := by
  obtain ⟨hstdout, hcode, hfails⟩ := fails_failure hsilent stdout e source
  refine ⟨by rwa [hstdout], iff_of_false (fun hzero => hcode hzero.1) (by simp), ?_⟩
  intro e' source' heq
  obtain ⟨rfl, rfl⟩ := Prod.mk.inj (Option.some.inj heq)
  exact hfails

end Invocation

/-! ## Arguments -/

/-- Every limit of 64 bits can be given in decimal. -/
theorem Argument.readLimit?_toString {n : Nat} (h : n < UInt64.size) :
    Argument.readLimit? (toString n).toList = some n := by
  have hdigit : ∀ c ∈ Nat.toDigits 10 n, c.isDigit = true :=
    fun c hc => Nat.isDigit_of_mem_toDigits (by decide) (by decide) hc
  have hne : Nat.toDigits 10 n ≠ [] := Nat.toDigits_ne_nil
  have hvalue : (Nat.toDigits 10 n).foldl (fun n d => 10 * n + (d.toNat - '0'.toNat)) 0 = n :=
    Nat.ofDigitChars_ten_toDigits
  have hplus : (Nat.toDigits 10 n).head? ≠ some '+' := by
    intro hhead
    cases hdigit '+' (List.mem_of_head? hhead)
  rw [toList_toString_nat]
  unfold Argument.readLimit?
  rw [if_neg hplus]
  simp only
  rw [hvalue, if_pos ⟨hne, List.all_eq_true.2 hdigit, h⟩]

/-- **A command, a file and a limit** make up an invocation without the log, if the file is no
option. -/
theorem Invocation.ofStrings?_limited {name file : String} {command : Command} {limit : Nat}
    (hname : Command.ofName? name = some command) (hfile : file.toList.head? ≠ some '-')
    (hlimit : limit < UInt64.size) :
    Invocation.ofStrings? [name, file, "--max-token-length", toString limit] =
      some ⟨command, file, limit, 0⟩ := by
  have hoperand : ∀ {arg : String}, arg.toList.head? ≠ some '-' → ∀ args,
      Argument.ofStrings? (arg :: args) = (Argument.ofStrings? args).map (.operand arg :: ·) := by
    intro arg harg args
    have hend : arg ≠ "--" := by
      rintro rfl
      exact harg rfl
    have hoption : arg.toList ≠ Argument.limitOption := by
      intro heq
      rw [heq] at harg
      exact harg rfl
    have hread : Argument.ofString? arg = some (.operand arg) := by
      unfold Argument.ofString?
      rw [if_pos (.inl harg)]
    rw [Argument.ofStrings?.eq_def]
    simp only [if_neg hend, if_neg hoption, hread]
    cases Argument.ofStrings? args <;> rfl
  have hargs : Argument.ofStrings? ["--max-token-length", toString limit] =
      some [.limit limit] := by
    unfold Argument.ofStrings?
    rw [if_neg (by decide), if_pos (by rfl)]
    show (Argument.readLimit? (toString limit).toList).bind _ = _
    rw [Argument.readLimit?_toString hlimit]
    rfl
  have hhead : name.toList.head? ≠ some '-' := by
    unfold Command.ofName? at hname
    split_ifs at hname with h h
    · rw [h]; decide
    · rw [h]; decide
  rw [Invocation.ofStrings?, hoperand hhead, hoperand hfile, hargs]
  show (Command.ofName? name).bind (fun command => some (⟨command, file, limit, 0⟩ : Invocation)) = _
  rw [hname]
  rfl

/-! ## Sessions of files -/

theorem Session.value_ofFile : (Session.ofFile settings file contents).value =
    (load file contents).value.bind fun text =>
      (sanitize file text.toList).value.map (.ofSanitized settings file) := by
  unfold Session.ofFile
  cases hload : (load file contents).value with
  | error e =>
    rw [Logged.eq_mk hload]
    rfl
  | ok text =>
    rw [Logged.eq_mk hload]
    rfl

theorem Session.ofFile_eq_ok_iff {s : Session} :
    (Session.ofFile settings file contents).value = .ok s ↔
      ∃ text source, (load file contents).value = .ok text ∧
        (sanitize file text.toList).value = .ok source ∧ s = .ofSanitized settings file source := by
  rw [Session.value_ofFile]
  cases (load file contents).value with
  | error e => simp [Except.bind]
  | ok text =>
    cases hsanitize : (sanitize file text.toList).value with
    | error e => simp [hsanitize, Except.bind, Except.map]
    | ok source => simp [hsanitize, Except.bind, Except.map, eq_comm]

theorem Session.ofFile_eq_error_iff {e : Error} :
    (Session.ofFile settings file contents).value = .error e ↔
      (load file contents).value = .error e ∨
        ∃ text, (load file contents).value = .ok text ∧
          (sanitize file text.toList).value = .error e := by
  rw [Session.value_ofFile]
  cases (load file contents).value with
  | error e => simp [Except.bind]
  | ok text =>
    cases hsanitize : (sanitize file text.toList).value with
    | error e => simp [hsanitize, Except.bind, Except.map]
    | ok source => simp [hsanitize, Except.bind, Except.map]

/-- **Without a session** the commands fail alike. -/
theorem Invocation.run_of_ofFile_error {e : Error}
    (h : (Session.ofFile settings file contents).value = .error e) :
    ∃ source, ∀ inv : Invocation, inv.file = file → inv.verbosity = 0 →
      inv.run contents = inv.failure "" [] e source := by
  rcases Session.ofFile_eq_error_iff.1 h with hload | ⟨text, hload, hsanitize⟩
  · refine ⟨[], fun inv hfile hsilent => run_of_load_error hsilent ?_⟩
    rw [hfile, hload]
  · refine ⟨text.toList, fun inv hfile hsilent => run_of_sanitize_error hsilent ?_ ?_⟩
    · rw [hfile, hload]
    · rw [hfile, hsanitize]

/-- Every text is the text of some bytes. -/
theorem load_toByteArray (path text : String) :
    (load path (.ok text.toByteArray)).value = .ok text := load_eq_ok_iff.2 rfl

/-! ## Courses -/

/-- **Every file has a course.** -/
theorem exists_course (settings : Settings) (file : String)
    (contents : Except Unreadable ByteArray) :
    ∃ tokens failure?, Course settings file contents tokens failure? := by
  cases hfile : (Session.ofFile settings file contents).value with
  | error e =>
    rcases Session.ofFile_eq_error_iff.1 hfile with hload | ⟨text, hload, hsanitize⟩
    · exact ⟨_, _, .unread e hload⟩
    · exact ⟨_, _, .refused text e hload hsanitize⟩
  | ok s =>
    have hs := hfile
    obtain ⟨text, source, -, -, rfl⟩ := Session.ofFile_eq_ok_iff.1 hfile
    have hyields := @Session.yields_read (.ofSanitized settings file source) rfl
    cases herror : ((Session.ofSanitized settings file source).settings.read _ _).error? with
    | none =>
      rw [herror] at hyields
      exact ⟨_, _, .finished _ _ hs hyields⟩
    | some e =>
      rw [herror] at hyields
      exact ⟨_, _, .failed _ _ e hs hyields⟩

/-- **The listing of a file tells its course**, wherever that ends. -/
theorem Course.tells {inv : Invocation} {tokens : List Token}
    {failure? : Option (Error × List Char)} (hsilent : inv.verbosity = 0)
    (hcommand : inv.command = .tokens)
    (hcourse : Course { limit := inv.limit } inv.file contents tokens failure?) :
    (inv.run contents).Tells inv.file tokens failure? := by
  have hnothing : IsLines "".toList [] [] := ⟨rfl, by simp, by simp⟩
  cases hcourse with
  | unread e hload =>
    rw [Invocation.run_of_load_error hsilent hload]
    exact Invocation.tells_failure hsilent hnothing
  | refused text e hload hsanitize =>
    rw [Invocation.run_of_sanitize_error hsilent hload hsanitize]
    exact Invocation.tells_failure hsilent hnothing
  | failed s tokens e hs hyields =>
    obtain ⟨text, source, hload, hsanitize, rfl⟩ := Session.ofFile_eq_ok_iff.1 hs
    obtain ⟨written, hwritten, -, hrun⟩ :=
      Invocation.run_tokens hsilent hcommand hload hsanitize
    obtain ⟨rfl, herror⟩ := hyields.unique (Session.yields_read rfl)
    rw [hrun e herror.symm]
    exact Invocation.tells_failure hsilent (Session.isLines_reading hwritten)
  | finished s tokens hs hyields =>
    obtain ⟨text, source, hload, hsanitize, rfl⟩ := Session.ofFile_eq_ok_iff.1 hs
    obtain ⟨written, hwritten, hrun, -⟩ :=
      Invocation.run_tokens hsilent hcommand hload hsanitize
    obtain ⟨rfl, herror⟩ := hyields.unique (Session.yields_read rfl)
    rw [hrun herror.symm]
    exact ⟨Session.isLines_reading hwritten, by simp, by simp⟩

/-- A course meets no error exactly if there is a session that can be drained without one. -/
theorem Course.eq_none_iff {tokens : List Token} {failure? : Option (Error × List Char)}
    (hcourse : Course settings file contents tokens failure?) :
    failure? = none ↔
      ∃ s, (Session.ofFile settings file contents).value = .ok s ∧ s.drain.error? = none := by
  have hdrain : ∀ {s tokens error?}, (Session.ofFile settings file contents).value = .ok s →
      s.Yields tokens error? → s.drain.error? = error? := by
    intro s tokens error? hs hyields
    obtain ⟨text, source, -, -, rfl⟩ := Session.ofFile_eq_ok_iff.1 hs
    exact (Session.drain_of_yields rfl hyields).2
  cases hcourse with
  | unread e hload =>
    refine iff_of_false (by simp) ?_
    rintro ⟨s, hs, -⟩
    rw [Session.ofFile_eq_error_iff.2 (.inl hload)] at hs
    cases hs
  | refused text e hload hsanitize =>
    refine iff_of_false (by simp) ?_
    rintro ⟨s, hs, -⟩
    rw [Session.ofFile_eq_error_iff.2 (.inr ⟨text, hload, hsanitize⟩)] at hs
    cases hs
  | failed s tokens e hs hyields =>
    refine iff_of_false (by simp) ?_
    rintro ⟨s', hs', hnone⟩
    obtain rfl := Except.ok.inj (hs.symm.trans hs')
    rw [hdrain hs hyields] at hnone
    cases hnone
  | finished s tokens hs hyields => exact iff_of_true rfl ⟨s, hs, hdrain hs hyields⟩

/-- **The commands do what the library does.** Let arguments ask for the tokens of a file, and others
for its sanitized text, both without the log. The tokens are listed as a course of the file tells,
and every file has one. The sanitized text is shown, whatever the limit; and where there is none, the
two commands fail alike and list nothing. -/
theorem commands_tell (read : String → Except Unreadable ByteArray) {limit limit' : Nat}
    {args args' : List String}
    (htokens : Invocation.ofStrings? args = some ⟨.tokens, file, limit, 0⟩)
    (hpreprocess : Invocation.ofStrings? args' = some ⟨.preprocess, file, limit', 0⟩) :
    let settings : Settings := { limit := limit }
    let listed := runCommandLine read args
    let shown := runCommandLine read args'
    let started := (Session.ofFile settings file (read file)).value
    (∃ tokens failure?, Course settings file (read file) tokens failure?) ∧
      (∀ tokens failure?, Course settings file (read file) tokens failure? →
        listed.Tells file tokens failure?) ∧
      (listed.exitCode = 0 ∧ listed.stderr = "" ↔
        ∃ s, started = .ok s ∧ s.drain.error? = none) ∧
      (∀ text source, (load file (read file)).value = .ok text →
        (sanitize file text.toList).value = .ok source →
        shown = ⟨0, String.ofList source.text, ""⟩) ∧
      (∀ e, started = .error e → shown = listed ∧ shown.stdout = "") ∧
      (shown.exitCode = 0 ↔ ∃ s, started = .ok s) := by
  intro settings listed shown started
  have hlisted : listed = Invocation.run ⟨.tokens, file, limit, 0⟩ (read file) := by
    show runCommandLine read args = _
    rw [runCommandLine, htokens]
  have hshown : shown = Invocation.run ⟨.preprocess, file, limit', 0⟩ (read file) := by
    show runCommandLine read args' = _
    rw [runCommandLine, hpreprocess]
  obtain ⟨tokens, failure?, hcourse⟩ := exists_course settings file (read file)
  have htells : ∀ tokens failure?, Course settings file (read file) tokens failure? →
      listed.Tells file tokens failure? := by
    intro tokens failure? hcourse
    rw [hlisted]
    exact hcourse.tells rfl rfl
  -- neither command gets to a session
  have hfailed : ∀ e, started = .error e →
      shown = listed ∧ shown.stdout = "" ∧ shown.exitCode ≠ 0 := by
    intro e he
    obtain ⟨source, hrun⟩ := Invocation.run_of_ofFile_error he
    obtain ⟨hstdout, hcode, -⟩ :=
      @Invocation.fails_failure ⟨.preprocess, file, limit', 0⟩ rfl "" e source
    rw [hlisted, hshown, hrun _ rfl rfl, hrun _ rfl rfl]
    exact ⟨rfl, hstdout, hcode⟩
  have hpreprocessed : ∀ text source, (load file (read file)).value = .ok text →
      (sanitize file text.toList).value = .ok source →
      shown = ⟨0, String.ofList source.text, ""⟩ := by
    intro text source hload hsanitize
    rw [hshown]
    exact Invocation.run_preprocess rfl rfl hload hsanitize
  refine ⟨⟨tokens, failure?, hcourse⟩, htells, ?_, hpreprocessed, ?_, ?_⟩
  · exact (htells tokens failure? hcourse).success.trans hcourse.eq_none_iff
  · intro e he
    obtain ⟨hsame, hstdout, -⟩ := hfailed e he
    exact ⟨hsame, hstdout⟩
  · cases hstarted : started with
    | error e => exact iff_of_false (hfailed e hstarted).2.2 (by simp)
    | ok s =>
      obtain ⟨text, source, hload, hsanitize, -⟩ := Session.ofFile_eq_ok_iff.1 hstarted
      refine iff_of_true ?_ ⟨s, rfl⟩
      rw [hpreprocessed text source hload hsanitize]

/-- The second word is too long for the one command, and the other shows it. -/
theorem commands_tell_cut :
    let read : String → Except Unreadable ByteArray := fun _ => .ok "if // c\nabc x".toByteArray
    let args := ["tokens", "a.vt", "--max-token-length", toString 2]
    let args' := ["preprocess", "a.vt", "--max-token-length", toString 0]
    let error : Error := ⟨.tooLong "abc" 2, .ofByte "a.vt" 3⟩
    Invocation.ofStrings? args = some ⟨.tokens, "a.vt", 2, 0⟩ ∧
      Invocation.ofStrings? args' = some ⟨.preprocess, "a.vt", 0, 0⟩ ∧
      (runCommandLine read args).stdout = "Keyword (if)\n" ∧
      (runCommandLine read args).Fails "a.vt" error "if abc x\n".toList ∧
      runCommandLine read args' = ⟨0, "if abc x\n", ""⟩ := by
  intro read args args' error
  have hargs : Invocation.ofStrings? args = some ⟨.tokens, "a.vt", 2, 0⟩ :=
    Invocation.ofStrings?_limited rfl (by decide) (by decide)
  have hargs' : Invocation.ofStrings? args' = some ⟨.preprocess, "a.vt", 0, 0⟩ :=
    Invocation.ofStrings?_limited rfl (by decide) (by decide)
  have hascii : ∀ c ∈ "if // c\nabc x".toList, Text.isAscii c = true := List.all_eq_true.1 rfl
  have hsource : Sanitized.ofAscii "if // c\nabc x".toList = ⟨"if abc x\n".toList, 13, 5, 0⟩ := by
    cbv
  have hload : (load "a.vt" (read "a.vt")).value = .ok "if // c\nabc x" := load_toByteArray _ _
  have hsanitize := sanitize_of_ascii "a.vt" hascii
  rw [hsource] at hsanitize
  obtain ⟨-, htells, -, hshown, -, -⟩ := commands_tell read hargs hargs'
  have hfile := (@Session.ofFile_eq_ok_iff _ _ { limit := 2 } _).2 ⟨_, _, hload, hsanitize, rfl⟩
  have hread : Settings.read { limit := 2 } "a.vt" (Text.wordsFrom 0 "if abc x\n".toList) =
      ⟨[⟨.keyword, "if", ⟨.ofByte "a.vt" 0, .ofByte "a.vt" 2⟩⟩], some error⟩ := rfl
  have htold := htells _ _ (.failed _ _ error hfile (Session.yields_ofSanitized hread))
  refine ⟨hargs, hargs', ?_, htold.failed _ _ rfl, ?_⟩
  · rw [← String.toList_inj, htold.listed.join]
    rfl
  · rw [hshown _ _ hload hsanitize]
    rfl

end Lexis
