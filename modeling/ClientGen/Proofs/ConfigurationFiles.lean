import ClientGen.Command.Run
import ClientGen.Proofs.Settings

/-!
# Files of configurations

A configuration is read from its file as a document is, but a fault of its text is passed on as it
is, and a YAML value that is not set counts as no entries. Whatever parsers are given,
`Parsers.readsConfig` says what becomes of the file. A file that no document could be loaded from is
refused with a message, unless its text cannot be parsed or it holds such a value; and the command
ends with a message on a malformed configuration exactly if moreover the first value that does not
fit can be told (`malformed_configuration_iff`).
-/
namespace ClientGen

/-- No document can be loaded: its text makes no sense, or is no mapping. -/
def Failure.IsLoadFault : Failure → Prop
  | .unparsableDocument _ | .documentNotAMapping _ => True
  | _ => False

namespace Parsers

variable {parsers : Parsers} {d : Disk} {path : FilePath} {e : Failure} {v : Value}

def Unparsable (parsers : Parsers) (d : Disk) (path : FilePath) : Prop :=
  ∃ fault, parsers.readValue d path = .error (.malformedText fault)

/-- The file is an empty YAML document, or one that just says null. -/
def HoldsNothing (parsers : Parsers) (d : Disk) (path : FilePath) : Prop :=
  Format.ofPath path = .yaml ∧ parsers.readValue d path = .ok .null

/-- The file is a YAML document that is neither empty nor a mapping, and counts as no entries:
false, zero, an empty text or an empty list. -/
def TakenForNothing (parsers : Parsers) (d : Disk) (path : FilePath) : Prop :=
  Format.ofPath path = .yaml ∧ ∃ v, parsers.readValue d path = .ok v ∧ v.isSet = false ∧
    v ≠ .null ∧ ∀ fields, v ≠ .object fields

/-- The first value in the file that does not fit its setting strays. -/
def GivesStray (parsers : Parsers) (d : Disk) (path : FilePath) : Prop :=
  ∃ fields s v, parsers.readValue d path = .ok (.object fields) ∧
    (fields.flatMap Config.given).find? Config.isUnfit = some (s, v) ∧ Config.Strays s v

def RefusesConfig (parsers : Parsers) (d : Disk) (path : FilePath) (message : String) : Prop :=
  ∃ e, parsers.readConfig d path = .error e ∧ e.message? = some message

inductive ReadsConfig (parsers : Parsers) (d : Disk) (path : FilePath) : Outcome Config → Prop where
  | broken {e : Failure} (read : parsers.readValue d path = .error e) :
    parsers.ReadsConfig d path (.error e)
  | mapping {fields : Fields} (read : parsers.readValue d path = .ok (.object fields)) :
    parsers.ReadsConfig d path (Config.ofValue (.object fields))
  | nothing {v : Value} (read : parsers.readValue d path = .ok v)
    (other : ∀ fields, v ≠ .object fields) (yaml : Format.ofPath path = .yaml)
    (unset : v.isSet = false) : parsers.ReadsConfig d path (.ok {})
  | refused {v : Value} (read : parsers.readValue d path = .ok v)
    (other : ∀ fields, v ≠ .object fields)
    (counts : ¬(Format.ofPath path = .yaml ∧ v.isSet = false)) :
    parsers.ReadsConfig d path (.error (.setting (.notAMapping v)))

theorem readsConfig (parsers : Parsers) (d : Disk) (path : FilePath) :
    parsers.ReadsConfig d path (parsers.readConfig d path) := by
  unfold readConfig
  cases read : parsers.readValue d path with
  | error e => exact .broken read
  | ok v =>
    simp only [bind, Except.bind, Bool.not_eq_true]
    by_cases object : ∃ fields, v = .object fields
    · obtain ⟨fields, rfl⟩ := object
      split
      · rename_i unset
        have empty : fields = [] := by simpa [Value.isSet] using unset.2
        rw [empty] at read
        exact .mapping read
      · exact .mapping read
    · rw [not_exists] at object
      split
      · rename_i unset
        exact .nothing read object unset.1 unset.2
      · rename_i counts
        cases v with
        | object fields => exact absurd rfl (object fields)
        | scalar x => exact .refused read object counts
        | list items => exact .refused read object counts

theorem not_unparsable (read : parsers.readValue d path = .ok v) : ¬parsers.Unparsable d path := by
  simp [Unparsable, read]

/-- Only a mapping has values for settings. -/
theorem not_givesStray (read : parsers.readValue d path = .ok v)
    (other : ∀ fields, v ≠ .object fields) :
    ¬parsers.GivesStray d path := by
  rintro ⟨fields, s, w, mapping, -⟩
  cases read.symm.trans mapping
  exact other fields rfl

theorem not_takenForNothing (read : parsers.readValue d path = .ok v)
    (counts : ¬(Format.ofPath path = .yaml ∧ v.isSet = false)) :
    ¬parsers.TakenForNothing d path := by
  rintro ⟨yaml, w, readToo, unset, -⟩
  cases read.symm.trans readToo
  exact counts ⟨yaml, unset⟩

/-- A file that no document can be loaded from holds no mapping. -/
theorem not_object_of_loadFault (failed : parsers.readDocument d path = .error e)
    {fields : Fields} :
    parsers.readValue d path ≠ .ok (.object fields) := by
  intro read
  rw [readDocument, read] at failed
  cases failed

/-- Apart from the faults of a text, the failures of reading a file are those of loading it. -/
theorem readDocument_of_readValue (read : parsers.readValue d path = .error e)
    (parsed : ¬parsers.Unparsable d path) : parsers.readDocument d path = .error e := by
  rw [readDocument, read]
  cases e with
  | malformedText fault => exact absurd ⟨fault, read⟩ parsed
  | _ => rfl

/-- A file that no document can be loaded from is refused as a configuration or is an empty YAML
document, exactly if its text can be parsed and its value is not taken for nothing. -/
theorem refusesConfig_iff (failed : parsers.readDocument d path = .error e)
    (fault : e.IsLoadFault) :
    ((∃ message, parsers.RefusesConfig d path message) ∨ parsers.HoldsNothing d path) ↔
      ¬parsers.Unparsable d path ∧ ¬parsers.TakenForNothing d path := by
  have reading := parsers.readsConfig d path
  generalize outcome : parsers.readConfig d path = found at reading
  cases reading with
  | @broken f read =>
    have noValue : ¬parsers.TakenForNothing d path ∧ ¬parsers.HoldsNothing d path := by
      simp [TakenForNothing, HoldsNothing, read]
    simp only [noValue, or_false, not_false_eq_true, and_true]
    constructor
    · rintro ⟨message, g, refused, told⟩ ⟨textFault, unparsed⟩
      cases read.symm.trans unparsed
      cases outcome.symm.trans refused
      cases told
    · intro parsed
      cases failed.symm.trans (readDocument_of_readValue read parsed)
      cases e with
      | unparsableDocument text => exact ⟨_, _, outcome, rfl⟩
      | documentNotAMapping text => exact ⟨_, _, outcome, rfl⟩
      | _ => exact fault.elim
  | mapping read => exact absurd read (not_object_of_loadFault failed)
  | @nothing v read other yaml unset =>
    have accepted : ¬∃ message, parsers.RefusesConfig d path message := by
      simp [RefusesConfig, outcome]
    have parsed := not_unparsable read
    have empty : parsers.HoldsNothing d path ↔ v = .null := by simp [HoldsNothing, yaml, read]
    have taken : parsers.TakenForNothing d path ↔ v ≠ .null := by
      simp [TakenForNothing, yaml, read, unset, other]
    rw [empty, taken, not_ne_iff]
    simp only [accepted, parsed, false_or, not_false_eq_true, true_and]
  | @refused v read other counts =>
    exact iff_of_true (.inl ⟨_, _, outcome, rfl⟩)
      ⟨not_unparsable read, not_takenForNothing read counts⟩

/-- The file can be read, and the parsers do what they promise for its text: they give a value, or a
fault of the text. -/
def Parses (parsers : Parsers) (d : Disk) (path : FilePath) : Prop :=
  ∀ e, parsers.readValue d path = .error e → ∃ fault, e = .malformedText fault

/-- The file holds no configuration: no document could be loaded from it, and it is not just an
empty YAML document, or it is refused. -/
def Malformed (parsers : Parsers) (d : Disk) (path : FilePath) : Prop :=
  (∃ e, parsers.readDocument d path = .error e ∧ e.IsLoadFault ∧ ¬parsers.HoldsNothing d path) ∨
    ∃ e, parsers.readConfig d path = .error e

/-- A malformed file is refused with a message exactly if its text can be parsed, its value is not
taken for nothing and no value for a setting strays; it is refused without one exactly if its text
cannot be parsed or a value strays. -/
theorem refusesConfig_of_malformed (parses : parsers.Parses d path)
    (malformed : parsers.Malformed d path) :
    ((∃ message, parsers.RefusesConfig d path message) ↔
      ¬parsers.Unparsable d path ∧ ¬parsers.TakenForNothing d path ∧ ¬parsers.GivesStray d path) ∧
    ((∃ e, parsers.readConfig d path = .error e ∧ e.message? = none) ↔
      parsers.Unparsable d path ∨ parsers.GivesStray d path) := by
  have reading := parsers.readsConfig d path
  generalize outcome : parsers.readConfig d path = found at reading
  cases reading with
  | @broken f read =>
    obtain ⟨fault, rfl⟩ := parses f read
    have unparsable : parsers.Unparsable d path := ⟨fault, read⟩
    refine ⟨iff_of_false ?_ fun right => right.1 unparsable, iff_of_true ?_ (.inl unparsable)⟩
    · rintro ⟨message, e, failed, told⟩
      cases outcome.symm.trans failed
      cases told
    · exact ⟨_, rfl, rfl⟩
  | @mapping fields read =>
    have parsed := not_unparsable read
    have kept : ¬parsers.TakenForNothing d path := by
      rintro ⟨-, v, readToo, -, -, other⟩
      cases read.symm.trans readToo
      exact other fields rfl
    have answers := Config.answers_applyAll (c := {}) (d := fields)
    change ({} : Config).Answers _ (Config.ofValue (.object fields)) at answers
    generalize Config.ofValue (.object fields) = answer at outcome answers
    cases answers with
    | accepted taken =>
      rcases malformed with ⟨e, failed, -, -⟩ | ⟨e, failed⟩
      · exact absurd read (not_object_of_loadFault failed)
      · cases outcome.symm.trans failed
    | @refused e p first told =>
      have stray : parsers.GivesStray d path ↔ e.message? = none := by
        rw [told]
        constructor
        · rintro ⟨others, s, v, readToo, firstToo, strays⟩
          cases read.symm.trans readToo
          cases first.symm.trans firstToo
          exact strays
        · exact fun strays => ⟨fields, p.1, p.2, read, first, strays⟩
      simp only [RefusesConfig, outcome, Except.error.injEq, exists_eq_left', stray, parsed, kept,
        false_or, not_false_eq_true, true_and, and_true]
      exact Option.ne_none_iff_exists'.symm
  | @nothing v read other yaml unset =>
    have parsed := not_unparsable read
    have noStray := not_givesStray read other
    have present : v ≠ .null := by
      rintro rfl
      rcases malformed with ⟨e, -, -, holds⟩ | ⟨e, failed⟩
      · exact holds ⟨yaml, read⟩
      · cases outcome.symm.trans failed
    have taken : parsers.TakenForNothing d path := ⟨yaml, v, read, unset, present, other⟩
    simp [RefusesConfig, outcome, parsed, taken, noStray]
  | @refused v read other counts =>
    have parsed := not_unparsable read
    have kept := not_takenForNothing read counts
    have noStray := not_givesStray read other
    refine ⟨iff_of_true ⟨_, _, outcome, rfl⟩ ⟨parsed, kept, noStray⟩, iff_of_false ?_ ?_⟩
    · rintro ⟨e, failed, untold⟩
      cases failed
      cases untold
    · exact not_or.mpr ⟨parsed, noStray⟩

end Parsers

namespace Command

variable {platform : Platform} {o : CommandOptions} {d : Disk} {path : FilePath} {e : Failure}

/-- The command tells a message and ends with exit code 1; nothing is written. -/
structure EndsTold (platform : Platform) (o : CommandOptions) (d : Disk) (message : String) :
    Prop where
  run : runWith platform o d = ⟨d, "Error: " ++ message ++ "\n", .told message⟩
  exitCode : (runWith platform o d).ending.exitCode = 1

/-- A configuration that is not read ends the command. -/
theorem runWith_of_readConfig (given : o.config = some path)
    (failed : platform.parsers.readConfig d path = .error e) :
    runWith platform o d = ⟨d, (Ending.ofFailure e).text, Ending.ofFailure e⟩ := by
  have look : OnDisk.look (configFor platform.parsers o) d = ⟨d, [], .error e⟩ := by
    simp [OnDisk.look, configFor, given, failed, bind, Except.bind]
  have generated : generate platform o d = ⟨d, [], .error e⟩ := OnDisk.run_bind_of_error look _
  simp [runWith, generated, Ending.ofOutcome, logText]

/-- A refusal with a message is how the command ends. -/
theorem endsTold_of_refusesConfig {message : String} (given : o.config = some path)
    (refused : platform.parsers.RefusesConfig d path message) :
    EndsTold platform o d message := by
  obtain ⟨e, failed, told⟩ := refused
  have ran := runWith_of_readConfig given failed
  obtain ⟨code, text⟩ := Ending.exitCode_of_message told
  refine ⟨?_, by rw [ran]; exact code⟩
  rw [ran, text]
  simp [Ending.ofFailure, told]

/-- A refusal without a message is left to the system. -/
theorem runWith_of_untold (given : o.config = some path)
    (failed : platform.parsers.readConfig d path = .error e) (untold : e.message? = none) :
    runWith platform o d = ⟨d, "", .untold e⟩ := by
  rw [runWith_of_readConfig given failed]
  simp [Ending.ofFailure, untold, Ending.text]

end Command

/-- Whatever the parsers: a file that no document can be loaded from is refused as a configuration
with a message, or is an empty YAML document, exactly if its text can be parsed and its value is not
taken for nothing. On a malformed configuration the command ends with exit code 1 and the message of
the refusal exactly if moreover no value for a setting strays; and with a failure that is not told
exactly if the text cannot be parsed or a value strays. -/
theorem malformed_configuration_iff (platform : Platform) (d : Disk) (path : FilePath) :
    (∀ e, platform.parsers.readDocument d path = .error e → e.IsLoadFault →
      ((∃ message, platform.parsers.RefusesConfig d path message) ∨
          platform.parsers.HoldsNothing d path ↔
        ¬platform.parsers.Unparsable d path ∧ ¬platform.parsers.TakenForNothing d path)) ∧
    ∀ o : CommandOptions, o.config = some path → platform.parsers.Parses d path →
      platform.parsers.Malformed d path →
        ((∃ message, platform.parsers.RefusesConfig d path message ∧
            Command.EndsTold platform o d message) ↔
          ¬platform.parsers.Unparsable d path ∧ ¬platform.parsers.TakenForNothing d path ∧
            ¬platform.parsers.GivesStray d path) ∧
        ((∃ e, platform.parsers.readConfig d path = .error e ∧
            Command.runWith platform o d = ⟨d, "", .untold e⟩) ↔
          platform.parsers.Unparsable d path ∨ platform.parsers.GivesStray d path) := by
  refine ⟨fun e failed fault => Parsers.refusesConfig_iff failed fault, ?_⟩
  intro o given parses malformed
  obtain ⟨told, untold⟩ := Parsers.refusesConfig_of_malformed parses malformed
  rw [← told, ← untold]
  constructor
  · constructor
    · rintro ⟨message, refused, -⟩
      exact ⟨message, refused⟩
    · rintro ⟨message, refused⟩
      exact ⟨message, refused, Command.endsTold_of_refusesConfig given refused⟩
  · refine exists_congr fun e => and_congr_right fun failed => ?_
    constructor
    · intro ran
      have endings := congrArg CommandRun.ending (ran.symm.trans
        (Command.runWith_of_readConfig given failed))
      unfold Ending.ofFailure at endings
      cases told : e.message? with
      | none => rfl
      | some message =>
        rw [told] at endings
        cases endings
    · exact Command.runWith_of_untold given failed

section Instances

def configuredDisk (name text : String) : Disk :=
  ⟨["work"], [(["work"], .directory), (["work", "api.json"], .file "\x7b\x7d"),
    (["work", name], .file text)]⟩

def configuredPath (name : String) : FilePath := ⟨true, ["work", name]⟩

/-- The command with just the document, the output directory and a configuration. -/
def configuredOptions (name : String) : CommandOptions where
  document := ⟨true, ["work", "api.json"]⟩
  output := ⟨true, ["work", "out"]⟩
  config := some (configuredPath name)
  includeTags := none
  excludeTags := none
  keepUnusedModels := false
  minParamsForContainer := none
  sortParams := none
  defaultTag := none
  classPrefix := none
  templates := none
  generateExamples := false
  verbose := false

/-- The standard parsers are given the text of the file, its line breaks unified. -/
theorem readValue_configured {name text : String}
    (possible : (configuredPath name).isPossible = true)
    (held : (configuredDisk name text).text? (configuredPath name) = some text) :
    Parsers.standard.readValue (configuredDisk name text) (configuredPath name) =
      Parsers.standard.read (Format.ofPath (configuredPath name))
        (String.ofList (Text.unifyLineBreaks text.toList)) := by
  rw [Parsers.readValue, if_pos possible, held]

theorem readValue_settings (text : String) :
    Parsers.standard.readValue (configuredDisk "settings.json" text)
        (configuredPath "settings.json") =
      Json.parse (String.ofList (Text.unifyLineBreaks text.toList)) := by
  have json : Format.ofPath (configuredPath "settings.json") = .json := by decide
  rw [readValue_configured (by cbv) (by cbv), json]
  rfl

/-- A list in JSON is refused as a configuration with a message, as it is as a document. -/
theorem malformed_configuration_list :
    let parsers := Parsers.standard
    let d := configuredDisk "settings.json" "[]"
    let path := configuredPath "settings.json"
    parsers.readDocument d path = .error (.documentNotAMapping "/work/settings.json") ∧
      parsers.Parses d path ∧ parsers.Malformed d path ∧
      ((∃ message, parsers.RefusesConfig d path message) ∨ parsers.HoldsNothing d path) ∧
      ∃ message, parsers.RefusesConfig d path message ∧
        Command.EndsTold .standard (configuredOptions "settings.json") d message := by
  intro parsers d path
  have read : parsers.readValue d path = .ok (.list []) :=
    (readValue_settings "[]").trans (by cbv)
  have failed : parsers.readDocument d path =
      .error (.documentNotAMapping "/work/settings.json") := by
    rw [Parsers.readDocument, read]
    cbv
  have parses : parsers.Parses d path := by
    intro e broken
    cases read.symm.trans broken
  have parsed := Parsers.not_unparsable read
  have json : Format.ofPath path ≠ .yaml := by decide
  have kept : ¬parsers.TakenForNothing d path := fun taken => json taken.1
  have noStray := Parsers.not_givesStray read (by simp)
  have malformed : parsers.Malformed d path :=
    .inl ⟨_, failed, trivial, fun nothing => json nothing.1⟩
  obtain ⟨loads, commands⟩ := malformed_configuration_iff .standard d path
  exact ⟨failed, parses, malformed, (loads _ failed trivial).mpr ⟨parsed, kept⟩,
    (commands (configuredOptions "settings.json") rfl parses malformed).1.mpr
      ⟨parsed, kept, noStray⟩⟩

/-- A configuration that sets an integer to an infinite number. -/
def endlessDisk : Disk :=
  configuredDisk "settings.json" "\x7b\"minParamsForContainer\": Infinity\x7d"

theorem runWith_endlessDisk :
    Command.runWith .standard (configuredOptions "settings.json") endlessDisk =
      ⟨endlessDisk, "", .untold (.misuse .outOfRange)⟩ := by
  have read : Parsers.standard.readValue endlessDisk (configuredPath "settings.json") =
      .ok (.object [(.text "minParamsForContainer", .scalar (.float (.infinite false)))]) :=
    (readValue_settings _).trans (by cbv)
  have failed : Parsers.standard.readConfig endlessDisk (configuredPath "settings.json") =
      .error (.misuse .outOfRange) := by
    have json : Format.ofPath (configuredPath "settings.json") ≠ .yaml := by decide
    rw [Parsers.readConfig, read]
    simp only [bind, Except.bind, json, false_and, if_false]
    cbv
  exact Command.runWith_of_untold rfl failed rfl

/-- A text that is no JSON ends the command without a message, and so does a number that is too
large for its setting; an empty YAML list, which is no document, is taken for a configuration
without entries. -/
theorem malformed_configuration_untold :
    (let d := configuredDisk "settings.json" "\x7bnot json"
      let path := configuredPath "settings.json"
      Parsers.standard.readDocument d path =
          .error (.unparsableDocument "/work/settings.json") ∧
        ¬((∃ message, Parsers.standard.RefusesConfig d path message) ∨
          Parsers.standard.HoldsNothing d path) ∧
        Command.runWith .standard (configuredOptions "settings.json") d =
          ⟨d, "", .untold (.malformedText .json)⟩) ∧
    Command.runWith .standard (configuredOptions "settings.json") endlessDisk =
      ⟨endlessDisk, "", .untold (.misuse .outOfRange)⟩ ∧
    let d := configuredDisk "settings.yml" "[]"
    let path := configuredPath "settings.yml"
    Parsers.standard.readDocument d path =
        .error (.documentNotAMapping "/work/settings.yml") ∧
      ¬((∃ message, Parsers.standard.RefusesConfig d path message) ∨
        Parsers.standard.HoldsNothing d path) := by
  refine ⟨?_, runWith_endlessDisk, ?_⟩
  · intro d path
    have read : Parsers.standard.readValue d path = .error (.malformedText .json) :=
      (readValue_settings "\x7bnot json").trans (by cbv)
    have failed : Parsers.standard.readConfig d path = .error (.malformedText .json) := by
      rw [Parsers.readConfig, read]
      rfl
    refine ⟨?_, ?_, Command.runWith_of_untold rfl failed rfl⟩
    · rw [Parsers.readDocument, read]
      cbv
    · rintro (⟨message, e, refused, told⟩ | ⟨-, null⟩)
      · cases failed.symm.trans refused
        cases told
      · cases read.symm.trans null
  · intro d path
    have yaml : Format.ofPath path = .yaml := by decide
    have read : Parsers.standard.readValue d path = .ok (.list []) := by
      refine (readValue_configured (by cbv) (by cbv)).trans ?_
      rw [yaml]
      cbv
    have accepted : Parsers.standard.readConfig d path = .ok {} := by
      rw [Parsers.readConfig, read]
      simp [bind, Except.bind, yaml, Value.isSet, Config.ofValue, Config.applyAll]
    refine ⟨?_, ?_⟩
    · rw [Parsers.readDocument, read]
      cbv
    · rintro (⟨message, e, refused, told⟩ | ⟨-, null⟩)
      · cases accepted.symm.trans refused
      · cases read.symm.trans null

end Instances

end ClientGen
