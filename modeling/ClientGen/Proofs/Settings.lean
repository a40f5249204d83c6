import Mathlib
import ClientGen.Config
import ClientGen.Proofs.Runs

/-!
# Settings that are read

An entry of a configuration gives values to settings. `Config.Answers` says what becomes of a list
of such values: if all fit, each setting holds the last value given to it, or what it held before;
else the first one that does not fit is refused, mostly with a message. A configuration that is
read can therefore be written and read again, and only the order among the entries for one setting
counts (`Config.settings_determined`).
-/
namespace ClientGen

namespace Setting

inductive Kind where
  | anything
  | flag
  | integer
  | words
  deriving DecidableEq

def kind : Setting → Kind
  | includeTags | excludeTags | templates => .anything
  | minParamsForContainer => .integer
  | sortParams | defaultTag | classPrefix | modelFileSuffix | serviceFileSuffix
  | exampleFileSuffix => .words
  | ignoreUnusedModels | camelCase | generateExamples | errorHandler | apiModule | modelIndex
  | serviceIndex | enumModule | removeStaleFiles | addGenerationComment => .flag

/-- The value that a setting takes when `v` is given to it; a refusal tells the key. -/
def read (s : Setting) (key : String) (v : Value) : Outcome Value :=
  match s.kind with
  | .anything => .ok v
  | .flag => (Config.asFlag key v).map .bool
  | .integer => (Config.asInteger key v).map .int
  | .words => (Config.asWords key v).map .text

/-- The value that a setting takes when `v` is given to it, if that fits. -/
def read? (s : Setting) (v : Value) : Option Value := (s.read s.key v).toOption

theorem ofKey?_key (s : Setting) : ofKey? s.key = some s := by
  cases s <;> decide

end Setting

namespace Config

variable {c next mid : Config} {s : Setting} {v w : Value}

structure Puts (c : Config) (s : Setting) (w : Value) (next : Config) : Prop where
  get : ∀ t, next.get t = if t = s then w else c.get t
  commandLine : next.commandLine = c.commandLine

/-- A configuration is what its settings say, and the command line. -/
theorem ext_get (same : ∀ s, c.get s = next.get s) (told : c.commandLine = next.commandLine) :
    c = next := by
  have flag {a b : Bool} (equal : Value.bool a = .bool b) : a = b := by cases equal; rfl
  have integer {a b : Int} (equal : Value.int a = .int b) : a = b := by cases equal; rfl
  have words {a b : String} (equal : Value.text a = .text b) : a = b := by cases equal; rfl
  cases c
  cases next
  rw [Config.mk.injEq]
  exact ⟨same .includeTags, same .excludeTags, flag (same .ignoreUnusedModels),
    integer (same .minParamsForContainer), words (same .sortParams), words (same .defaultTag),
    flag (same .camelCase), words (same .classPrefix), words (same .modelFileSuffix),
    words (same .serviceFileSuffix), words (same .exampleFileSuffix),
    flag (same .generateExamples), same .templates, flag (same .errorHandler),
    flag (same .apiModule), flag (same .modelIndex), flag (same .serviceIndex),
    flag (same .enumModule), flag (same .removeStaleFiles), flag (same .addGenerationComment),
    told⟩

theorem set_cases_of {α : Type} {reading : Outcome α} {wrap : α → Value} {store : α → Config}
    (read : s.read s.key v = reading.map wrap)
    (setting : c.set s v = reading >>= fun x => pure (store x))
    (stored : ∀ x, c.Puts s (wrap x) (store x)) :
    (∃ w next, s.read s.key v = .ok w ∧ c.set s v = .ok next ∧ c.Puts s w next) ∨
      ∃ e, s.read s.key v = .error e ∧ c.set s v = .error e := by
  rw [read, setting]
  cases reading with
  | ok x => exact .inl ⟨_, _, rfl, rfl, stored x⟩
  | error e => exact .inr ⟨e, rfl, rfl⟩

/-- A setting takes a value that fits, and refuses any other. -/
theorem set_cases (c : Config) (s : Setting) (v : Value) :
    (∃ w next, s.read s.key v = .ok w ∧ c.set s v = .ok next ∧ c.Puts s w next) ∨
      ∃ e, s.read s.key v = .error e ∧ c.set s v = .error e := by
  cases s
  case includeTags | excludeTags | templates =>
    exact .inl ⟨v, _, rfl, rfl, fun t => by cases t <;> rfl, rfl⟩
  all_goals exact set_cases_of rfl rfl fun x => ⟨fun t => by cases t <;> rfl, rfl⟩

def suffixGiven (suffixes : Fields) (kind : String) (s : Setting) : List (Setting × Value) :=
  (suffixes.get? kind).toList.map fun v => (s, v)

def suffixesGiven (suffixes : Fields) : List (Setting × Value) :=
  suffixGiven suffixes "model" .modelFileSuffix ++
    (suffixGiven suffixes "service" .serviceFileSuffix ++
      suffixGiven suffixes "example" .exampleFileSuffix)

def given : Scalar × Value → List (Setting × Value)
  | (.text k, v) =>
    match Setting.ofKey? k with
    | some s => [(s, v)]
    | none =>
      match v with
      | .object suffixes => if k = suffixesKey then suffixesGiven suffixes else []
      | _ => []
  | _ => []

def valuesFor (s : Setting) (values : List (Setting × Value)) : List Value :=
  values.filterMap fun p => if p.1 = s then p.1.read? p.2 else none

/-- The configuration `next` is `c` after settings have taken all of the values, which fit them. -/
structure Takes (c : Config) (values : List (Setting × Value)) (next : Config) : Prop where
  fits : ∀ p ∈ values, ∃ w, p.1.read? p.2 = some w
  get : ∀ s, next.get s = (valuesFor s values).getLast?.getD (c.get s)
  commandLine : next.commandLine = c.commandLine

variable {values more : List (Setting × Value)}

theorem Takes.unique {other : Config} (first : c.Takes values next)
    (second : c.Takes values other) : next = other :=
  ext_get (fun t => (first.get t).trans (second.get t).symm)
    (first.commandLine.trans second.commandLine.symm)

theorem takes_nil : c.Takes [] c := ⟨by simp, fun _ => rfl, rfl⟩

theorem takes_singleton (fit : s.read? v = some w) (put : c.Puts s w next) :
    c.Takes [(s, v)] next := by
  refine ⟨by simp [fit], fun t => ?_, put.commandLine⟩
  rw [put.get t]
  by_cases same : s = t
  · subst same
    simp [valuesFor, fit]
  · simp [valuesFor, same, Ne.symm same]

/-- Values that are taken in two steps. -/
theorem Takes.append (first : c.Takes values mid) (second : mid.Takes more next) :
    c.Takes (values ++ more) next where
  fits p member := (List.mem_append.mp member).elim (first.fits p) (second.fits p)
  get s := by
    rw [second.get s, first.get s, valuesFor, valuesFor, valuesFor, List.filterMap_append,
      List.getLast?_append, Option.getD_or]
  commandLine := second.commandLine.trans first.commandLine

def isUnfit (p : Setting × Value) : Bool := (p.1.read? p.2).isNone

/-- The value is no text of a message, or an infinite number of parameters. -/
def Strays (s : Setting) (v : Value) : Prop :=
  v.isTellable = false ∨ s.kind = .integer ∧ ∃ negative, v = .scalar (.float (.infinite negative))

/-- What becomes of values that are given to settings one after another: all are taken, or the first
one that does not fit is refused, with a message unless it strays. -/
inductive Answers (c : Config) (values : List (Setting × Value)) : Outcome Config → Prop where
  | accepted {next : Config} (taken : c.Takes values next) : c.Answers values (.ok next)
  | refused {e : Failure} {p : Setting × Value} (first : values.find? isUnfit = some p)
      (told : e.message? = none ↔ Strays p.1 p.2) : c.Answers values (.error e)

theorem Takes.find?_isUnfit (taken : c.Takes values next) : values.find? isUnfit = none := by
  rw [List.find?_eq_none]
  intro p member
  obtain ⟨w, fit⟩ := taken.fits p member
  simp [isUnfit, fit]

theorem Answers.eq_ok_iff {outcome : Outcome Config} (answers : c.Answers values outcome) :
    outcome = .ok next ↔ c.Takes values next := by
  cases answers with
  | accepted taken =>
    rw [Except.ok.injEq]
    constructor
    · rintro rfl
      exact taken
    · exact taken.unique
  | refused first told =>
    refine iff_of_false (by simp) fun taken => ?_
    rw [taken.find?_isUnfit] at first
    cases first

theorem answers_nil : c.Answers [] (.ok c) := .accepted takes_nil

theorem Answers.bind {outcome : Outcome Config} {f : Config → Outcome Config}
    (first : c.Answers values outcome) (second : ∀ mid : Config, mid.Answers more (f mid)) :
    c.Answers (values ++ more) (outcome >>= f) := by
  cases first with
  | @accepted mid taken =>
    have later := second mid
    change c.Answers (values ++ more) (f mid)
    cases outcome : f mid with
    | ok next =>
      rw [outcome] at later
      exact .accepted (taken.append (later.eq_ok_iff.mp rfl))
    | error e =>
      rw [outcome] at later
      cases later with
      | refused found told =>
        refine .refused ?_ told
        rw [List.find?_append, taken.find?_isUnfit, Option.none_or, found]
  | refused found told =>
    refine .refused ?_ told
    rw [List.find?_append, found, Option.some_or]

theorem message?_refusal {α : Type} {fault : Value → SettingFault} {e : Failure}
    (refused : (refusal fault v : Outcome α) = .error e) :
    e.message? = none ↔ v.isTellable = false := by
  unfold refusal at refused
  split at refused
  · rename_i tellable
    cases refused
    simp [Failure.message?, tellable]
  · rename_i untellable
    cases refused
    simpa [Failure.message?] using untellable

theorem message?_asFlag {key : String} {e : Failure} (refused : asFlag key v = .error e) :
    e.message? = none ↔ v.isTellable = false := by
  unfold asFlag at refused
  dsimp only at refused
  split at refused
  · cases refused
    simp [Failure.message?, Value.isTellable, Scalar.isTellable]
  · cases refused
  · split at refused
    · cases refused
    · split at refused
      · cases refused
      · exact message?_refusal refused
  · split at refused
    · cases refused
    · split at refused
      · cases refused
      · exact message?_refusal refused
  · exact message?_refusal refused

theorem message?_asWords {key : String} {e : Failure} (refused : asWords key v = .error e) :
    e.message? = none ↔ v.isTellable = false := by
  unfold asWords at refused
  split at refused
  · cases refused
    simp [Failure.message?, Value.isTellable, Scalar.isTellable]
  · split at refused
    · cases refused
    · rename_i untellable
      cases refused
      simpa [Failure.message?, Value.isTellable] using untellable
  · exact message?_refusal refused

theorem message?_asInteger {key : String} {e : Failure} (refused : asInteger key v = .error e) :
    e.message? = none ↔
      v.isTellable = false ∨ ∃ negative, v = .scalar (.float (.infinite negative)) := by
  unfold asInteger at refused
  dsimp only at refused
  split at refused
  · cases refused
    simp [Failure.message?, Value.isTellable, Scalar.isTellable]
  · cases refused
  · cases refused
  · cases refused
    simp [Failure.message?]
  · rename_i x finite
    split at refused
    · cases refused
    · refine (message?_refusal refused).trans (or_iff_left ?_).symm
      rintro ⟨negative, same⟩
      cases same
      exact finite negative rfl
  · split at refused
    · cases refused
    · rw [message?_refusal refused]
      simp
  · rename_i infinite _ _
    refine (message?_refusal refused).trans (or_iff_left ?_).symm
    rintro ⟨negative, same⟩
    exact infinite negative same

/-- A refused value is told unless it strays. -/
theorem message?_read {key : String} {e : Failure} (refused : s.read key v = .error e) :
    e.message? = none ↔ Strays s v := by
  unfold Setting.read at refused
  unfold Strays
  cases kind : s.kind with
  | anything =>
    rw [kind] at refused
    cases refused
  | flag =>
    rw [kind] at refused
    simpa using message?_asFlag (map_eq_error.mp refused)
  | integer =>
    rw [kind] at refused
    simpa using message?_asInteger (map_eq_error.mp refused)
  | words =>
    rw [kind] at refused
    simpa using message?_asWords (map_eq_error.mp refused)

theorem answers_set : c.Answers [(s, v)] (c.set s v) := by
  rcases c.set_cases s v with ⟨w, next, read, success, put⟩ | ⟨e, read, failure⟩
  · rw [success]
    exact .accepted (takes_singleton (by rw [Setting.read?, read]; rfl) put)
  · rw [failure]
    refine .refused (p := (s, v)) ?_ (message?_read read)
    simp [isUnfit, Setting.read?, read, Except.toOption]

theorem toOption_refusal {α : Type} (fault : Value → SettingFault) (v : Value) :
    (refusal fault v : Outcome α).toOption = none := by
  unfold refusal
  split <;> rfl

/-- The key that a refusal tells has no influence on what is accepted. -/
theorem toOption_asWords (key other : String) (v : Value) :
    (asWords key v).toOption = (asWords other v).toOption := by
  cases v with
  | scalar x => cases x <;> rfl
  | list items => exact (toOption_refusal _ _).trans (toOption_refusal _ _).symm
  | object fields => exact (toOption_refusal _ _).trans (toOption_refusal _ _).symm

theorem answers_setSuffix {suffixes : Fields} {kind : String} {store : Config → String → Config}
    (words : s.kind = .words) (stored : ∀ (c : Config) x, c.Puts s (.text x) (store c x)) :
    c.Answers (suffixGiven suffixes kind s) (setSuffix suffixes kind store c) := by
  unfold setSuffix suffixGiven
  cases found : suffixes.get? kind with
  | none => exact answers_nil
  | some v =>
    have read (key : String) : s.read key v = (asWords key v).map .text := by
      rw [Setting.read, words]
    have fits : s.read? v = (asWords (suffixesKey ++ "." ++ kind) v).toOption.map .text := by
      rw [Setting.read?, read, ← toOption_asWords s.key]
      cases asWords s.key v <;> rfl
    rw [Option.toList_some, List.map_singleton]
    dsimp only
    cases outcome : asWords (suffixesKey ++ "." ++ kind) v with
    | ok x =>
      rw [outcome] at fits
      exact .accepted (takes_singleton fits (stored c x))
    | error e =>
      rw [outcome] at fits
      refine .refused (p := (s, v)) ?_ (message?_read ((read _).trans (map_eq_error.mpr outcome)))
      simp [isUnfit, fits, Except.toOption]

theorem answers_setSuffixes {suffixes : Fields} :
    c.Answers (suffixesGiven suffixes) (c.setSuffixes suffixes) := by
  refine (answers_setSuffix rfl fun c x => ?_).bind fun first =>
    (answers_setSuffix rfl fun c x => ?_).bind fun second => answers_setSuffix rfl fun c x => ?_
  all_goals exact ⟨fun t => by cases t <;> rfl, rfl⟩

/-- An entry is applied by giving settings the values that it has for them. -/
theorem answers_apply {key : Scalar} : c.Answers (given (key, v)) (c.apply key v) := by
  cases key with
  | text k =>
    cases named : Setting.ofKey? k with
    | some s =>
      simp only [apply, given, named]
      exact answers_set
    | none =>
      simp only [apply, given, named]
      cases v with
      | object suffixes =>
        dsimp only
        split
        · exact answers_setSuffixes
        · exact answers_nil
      | scalar x => exact answers_nil
      | list items => exact answers_nil
  | null | bool b | int n | float x | date d => exact answers_nil

theorem answers_applyAll {d : Fields} : c.Answers (d.flatMap given) (c.applyAll d) := by
  induction d generalizing c with
  | nil => exact answers_nil
  | cons entry rest ih =>
    rw [applyAll, List.flatMap_cons]
    exact answers_apply.bind fun mid => ih

/-- An object is accepted exactly if all values in it fit their settings, each of which then holds
the last of its values, or its default. -/
theorem ofValue_object_eq_ok {d : Fields} :
    ofValue (.object d) = .ok c ↔ ({} : Config).Takes (d.flatMap given) c :=
  answers_applyAll.eq_ok_iff

/-- What a setting holds fits it. -/
theorem read?_get (c : Config) (s : Setting) : s.read? (c.get s) = some (c.get s) := by
  cases s <;> rfl

theorem flatMap_given_toFields (c : Config) :
    c.toFields.flatMap given = Setting.all.map fun s => (s, c.get s) := by
  rw [toFields, List.flatMap_map, ← List.flatMap_pure_eq_map]
  refine List.flatMap_congr fun s _ => ?_
  simp [given, Setting.ofKey?_key]

/-- A configuration that is written is read again, up to the command line. -/
theorem ofValue_toValue (told : c.commandLine = ({} : Config).commandLine) :
    ofValue c.toValue = .ok c := by
  rw [toValue, ofValue_object_eq_ok, flatMap_given_toFields]
  refine ⟨?_, fun s => ?_, told⟩
  · rw [List.forall_mem_map]
    exact fun s _ => ⟨c.get s, c.read?_get s⟩
  · have own : valuesFor s (Setting.all.map fun s => (s, c.get s)) = [c.get s] := by
      cases s <;> rfl
    rw [own]
    rfl

def gives (s : Setting) (entry : Scalar × Value) : Bool := (given entry).any fun p => p.1 == s

/-- The entries in another order, in which those that have a value for one setting keep theirs. -/
structure Reorders (d e : Fields) : Prop where
  perm : d.Perm e
  order : ∀ s, d.filter (gives s) = e.filter (gives s)

/-- The values for a setting come from the entries that have one. -/
theorem valuesFor_flatMap_given (s : Setting) (d : Fields) :
    valuesFor s (d.flatMap given) =
      (d.filter (gives s)).flatMap fun entry => valuesFor s (given entry) := by
  induction d with
  | nil => rfl
  | cons entry rest ih =>
    rw [List.flatMap_cons, valuesFor, List.filterMap_append, ← valuesFor, ← valuesFor, ih]
    by_cases concerned : gives s entry = true
    · rw [List.filter_cons_of_pos concerned, List.flatMap_cons]
    · have none : valuesFor s (given entry) = [] := by
        rw [valuesFor, List.filterMap_eq_nil_iff]
        intro p member
        rw [if_neg]
        rintro rfl
        exact concerned (List.any_eq_true.mpr ⟨p, member, beq_self_eq_true _⟩)
      rw [List.filter_cons_of_neg concerned, none, List.nil_append]

/-- Entries in another order are read as the same configuration. -/
theorem ofValue_reordered {d e : Fields} (reordered : Reorders d e)
    (accepted : ofValue (.object d) = .ok c) : ofValue (.object e) = .ok c := by
  rw [ofValue_object_eq_ok] at accepted ⊢
  refine ⟨fun p member => ?_, fun s => ?_, accepted.commandLine⟩
  · exact accepted.fits p ((reordered.perm.flatMap_right given).mem_iff.mpr member)
  · rw [accepted.get s, valuesFor_flatMap_given, reordered.order s, ← valuesFor_flatMap_given]

/-- The value is of the kind of the default: a flag, an integer or a text where that is one. -/
def LikeDefault (s : Setting) (v : Value) : Prop :=
  match ({} : Config).get s with
  | .bool _ => ∃ b, v = .bool b
  | .int _ => ∃ n, v = .int n
  | .text _ => ∃ t, v = .text t
  | _ => True

/-- The kind of a setting is that of its default. -/
theorem likeDefault_iff : LikeDefault s v ↔
    match s.kind with
    | .anything => True
    | .flag => ∃ b, v = .bool b
    | .integer => ∃ n, v = .int n
    | .words => ∃ t, v = .text t := by
  cases s <;> rfl

/-- Whatever value is given to a setting, it takes one of the kind of its default. -/
theorem likeDefault_read {key : String} (read : s.read key v = .ok w) : LikeDefault s w := by
  rw [likeDefault_iff]
  unfold Setting.read at read
  cases kind : s.kind with
  | anything => trivial
  | flag | integer | words =>
    rw [kind] at read
    obtain ⟨x, -, wrapped⟩ := map_eq_ok.mp read
    exact ⟨x, wrapped.symm⟩

theorem likeDefault_default (s : Setting) : LikeDefault s (({} : Config).get s) := by
  cases s <;> first | trivial | exact ⟨_, rfl⟩

/-- The last value that a setting is given and takes, or else its default, is of the kind of the
default. -/
theorem likeDefault_last (s : Setting) (values : List (Setting × Value)) :
    LikeDefault s ((valuesFor s values).getLast?.getD (({} : Config).get s)) := by
  cases last : (valuesFor s values).getLast? with
  | none => exact likeDefault_default s
  | some w =>
    obtain ⟨p, -, taken⟩ := List.mem_filterMap.mp (List.mem_of_getLast? last)
    split at taken
    · rename_i same
      subst same
      exact likeDefault_read (toOption_eq_some.mp taken)
    · cases taken

/-- In a configuration that is read each setting holds the last value that it takes from the
entries, or its default, which both are of the kind of the default. The configuration is read again
from what is written for it, and is the same for all orders of the entries in which those for one
setting keep theirs. -/
theorem settings_determined {d : Fields} {c : Config} (accepted : ofValue (.object d) = .ok c) :
    (∀ s, c.get s = (valuesFor s (d.flatMap given)).getLast?.getD (({} : Config).get s) ∧
      LikeDefault s (c.get s)) ∧
    ofValue c.toValue = .ok c ∧ ∀ e, Reorders d e → ofValue (.object e) = .ok c := by
  have takes := ofValue_object_eq_ok.mp accepted
  refine ⟨fun s => ⟨takes.get s, ?_⟩, ofValue_toValue takes.commandLine,
    fun _ reordered => ofValue_reordered reordered accepted⟩
  rw [takes.get s]
  exact likeDefault_last s _

/-- Settings in both spellings, two of them for the suffix of the files of models. -/
def storeFields : Fields :=
  [(.text "camelCase", .text " Yes"),
    (.text "customFileSuffix", .object [(.text "model", .text ".model")]),
    (.text "minParamsForContainer", .text "3"), (.text "model_file_suffix", .int 7)]

/-- The same settings, with those two in their order. -/
def reorderedFields : Fields :=
  [(.text "minParamsForContainer", .text "3"),
    (.text "customFileSuffix", .object [(.text "model", .text ".model")]),
    (.text "model_file_suffix", .int 7), (.text "camelCase", .text " Yes")]

/-- The last suffix counts in both orders, and all values are of the kinds of the defaults. -/
theorem settings_determined_store :
    Reorders storeFields reorderedFields ∧ ∃ c, ofValue (.object storeFields) = .ok c ∧
      c.camelCase = true ∧ c.minParamsForContainer = 3 ∧ c.modelFileSuffix = "7" ∧
      (∀ s, LikeDefault s (c.get s)) ∧ ofValue c.toValue = .ok c ∧
      ofValue (.object reorderedFields) = .ok c := by
  have reordered : Reorders storeFields reorderedFields :=
    ⟨by decide, fun s => by cases s <;> decide⟩
  obtain ⟨c, accepted, camelCase, count, suffix⟩ : ∃ c, ofValue (.object storeFields) = .ok c ∧
      c.camelCase = true ∧ c.minParamsForContainer = 3 ∧ c.modelFileSuffix = "7" :=
    ⟨_, by cbv, by cbv, by cbv, by cbv⟩
  obtain ⟨kinds, again, orders⟩ := settings_determined accepted
  exact ⟨reordered, c, accepted, camelCase, count, suffix, fun s => (kinds s).2, again,
    orders _ reordered⟩

end Config

end ClientGen
