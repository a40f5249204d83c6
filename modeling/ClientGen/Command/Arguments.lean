/-!
# Arguments of the command

The command itself is given its options. Here is how the program finds them in the words of a
command line, which are options and arguments. An option has a long name after two dashes, and some
have a short name of one letter after one dash. A value follows its option as the next word,
whatever that word is, behind an equals sign after a long name, or right behind a short one; several
short options may share a dash. Two dashes alone end the options. The last value given to an option
counts.
-/
namespace ClientGen

inductive CommandOption where
  | output
  | config
  | includeTags
  | excludeTags
  | keepUnusedModels
  | minParamsForContainer
  | sortParams
  | defaultTag
  | classPrefix
  | templates
  | generateExamples
  | verbose
  deriving DecidableEq, Repr

namespace CommandOption

/-- All options, in the order in which a command line is told. -/
def all : List CommandOption :=
  [output, config, includeTags, excludeTags, keepUnusedModels, minParamsForContainer, sortParams,
    defaultTag, classPrefix, templates, generateExamples, verbose]

def longName : CommandOption → String
  | output => "--output"
  | config => "--config"
  | includeTags => "--include-tags"
  | excludeTags => "--exclude-tags"
  | keepUnusedModels => "--keep-unused-models"
  | minParamsForContainer => "--min-params-for-container"
  | sortParams => "--sort-params"
  | defaultTag => "--default-tag"
  | classPrefix => "--prefix"
  | templates => "--templates"
  | generateExamples => "--generate-examples"
  | verbose => "--verbose"

def letter? : CommandOption → Option Char
  | output => some 'o'
  | config => some 'c'
  | verbose => some 'v'
  | _ => none

/-- Whether an option is a flag, which takes no value. -/
def isFlag : CommandOption → Bool
  | keepUnusedModels | generateExamples | verbose => true
  | _ => false

def ofLongName? (name : String) : Option CommandOption :=
  all.find? fun o => o.longName == name

def ofLetter? (letter : Char) : Option CommandOption :=
  all.find? fun o => o.letter? == some letter

end CommandOption

/-- What a command line gives: options with their values, in order, and arguments. The value of a
flag is empty. -/
structure Arguments where
  options : List (CommandOption × String)
  words : List String
  deriving DecidableEq, Repr

namespace Arguments

inductive Word where
  /-- The end of the options. -/
  | separator
  | argument
  /-- Options, the last of which may still need a value. -/
  | options (given : List (CommandOption × String)) (pending : Option CommandOption)
  deriving DecidableEq, Repr

def readLetters : List Char → Option Word
  | [] => some (.options [] none)
  | letter :: rest => do
    let o ← CommandOption.ofLetter? letter
    if o.isFlag then
      match ← readLetters rest with
      | .options given pending => some (.options ((o, "") :: given) pending)
      | word => some word
    else if rest.isEmpty then some (.options [] (some o))
    else some (.options [(o, String.ofList rest)] none)

def readLong (word : List Char) : Option Word := do
  let name := word.takeWhile (· != '=')
  let o ← CommandOption.ofLongName? (String.ofList name)
  match word.dropWhile (· != '=') with
  | [] => if o.isFlag then some (.options [(o, "")] none) else some (.options [] (some o))
  | _ :: value => if o.isFlag then none else some (.options [(o, String.ofList value)] none)

def readWord (word : String) : Option Word :=
  match word.toList with
  | ['-', '-'] => some .separator
  | '-' :: '-' :: rest => readLong ('-' :: '-' :: rest)
  | '-' :: letter :: rest => readLetters (letter :: rest)
  | _ => some .argument

def withOptions (given : List (CommandOption × String)) (a : Arguments) : Arguments :=
  { a with options := given ++ a.options }

def withWord (word : String) (a : Arguments) : Arguments :=
  { a with words := word :: a.words }

/-- Reads the words of a command line; `pending` is the option that the first word is the value
of. There is no result if a word names no option, or a value is missing. -/
def parseFrom (pending : Option CommandOption) : List String → Option Arguments
  | [] => if pending.isNone then some ⟨[], []⟩ else none
  | word :: rest =>
    match pending with
    | some o => (parseFrom none rest).map (withOptions [(o, word)])
    | none => do
      match ← readWord word with
      | .separator => some ⟨[], rest⟩
      | .argument => (parseFrom none rest).map (withWord word)
      | .options given pending => (parseFrom pending rest).map (withOptions given)

/-- Reads the words of a command line. -/
def parse? (words : List String) : Option Arguments := parseFrom none words

def value? (a : Arguments) (o : CommandOption) : Option String :=
  a.options.reverse.lookup o

/-- Whether a flag is given. -/
def has (a : Arguments) (o : CommandOption) : Bool := (a.value? o).isSome

end Arguments

end ClientGen
