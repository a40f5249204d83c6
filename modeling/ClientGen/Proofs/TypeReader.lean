import Mathlib
import ClientGen.Proofs.TokenScan

/-!
# Reading types

`TypeTree.read` reads a text as a type of the generated code: intersections bind tighter than
unions, and there are no parentheses. A text with the tokens of a readable type is read as that
type (`read_of_scan`), where a type is readable if its words and literals can be written
(`Legible`), if its unions and intersections are kept flat (`Normal`) and if no part of an
intersection is a union (`Flat`). Conversely only readable types are ever read, and they have as
many places of tuples as the text (`of_read`).
-/
namespace ClientGen

/-- One for the marks that a place of a tuple starts with, and zero for other tokens. -/
def Token.places : Token → Nat
  | .mark c => if c = '[' || c = ',' then 1 else 0
  | _ => 0

/-- The number of the marks that a place of a tuple starts with. -/
def places (tokens : List Token) : Nat := (tokens.map Token.places).sum

@[simp] theorem places_nil : places [] = 0 := rfl

@[simp] theorem places_cons (k : Token) (tokens : List Token) :
    places (k :: tokens) = k.places + places tokens := by
  rw [places, List.map_cons, List.sum_cons]
  rfl

@[simp] theorem places_append (tokens others : List Token) :
    places (tokens ++ others) = places tokens + places others := by
  rw [places, List.map_append, List.sum_append]
  rfl

/-- A mark between two places counts, and one between two other types does not. -/
theorem places_separated (c : Char) (pieces : List (List Token)) :
    places (separated c pieces) =
      (pieces.length - 1) * (Token.mark c).places + (pieces.map places).sum := by
  induction pieces with
  | nil => simp
  | cons piece rest ih =>
    cases rest with
    | nil => simp
    | cons next rest =>
      rw [separated_cons_cons, places_append, places_cons, ih]
      simp only [List.length_cons, List.map_cons, List.sum_cons, Nat.add_sub_cancel, Nat.add_mul]
      omega

/-- Reads something from the start of a list of tokens, and gives the tokens behind it. -/
abbrev Reader (α : Type) := List Token → Option (α × List Token)

namespace Reader

variable {α : Type}

def after? (c : Char) : List Token → Option (List Token)
  | .mark d :: rest => if d = c then some rest else none
  | _ => none

/-- Reads items with a mark between each two, `bound` of them at most. -/
def upTo (c : Char) (item : Reader α) : Nat → Reader (List α)
  | 0, _ => none
  | bound + 1, input => do
    let (first, rest) ← item input
    match after? c rest with
    | none => return ([first], rest)
    | some more => do
      let (others, rest) ← upTo c item bound more
      return (first :: others, rest)

def many (c : Char) (item : Reader α) : Reader (List α) := fun input =>
  upTo c item (input.length + 1) input

/-- Reads items with commas between them up to the closing mark. -/
def enclosed (close : Char) (item : Reader α) : Reader (List α) := fun input =>
  match after? close input with
  | some rest => some ([], rest)
  | none => do
    let (items, rest) ← many ',' item input
    return (items, ← after? close rest)

def both {β : Type} (first : Reader α) (second : Reader β) : Reader (α × β) := fun input => do
  let (a, rest) ← first input
  let (b, rest) ← second rest
  return ((a, b), rest)

/-- The tokens do not start with any of the marks. -/
def NotBefore (marks : List Char) (rest : List Token) : Prop :=
  ∀ c ∈ marks, after? c rest = none

theorem after?_eq_some {c : Char} {input rest : List Token} :
    after? c input = some rest ↔ input = .mark c :: rest := by
  unfold after?
  split
  · rename_i d behind
    by_cases same : d = c
    · simp [same]
    · simp [same]
  · rename_i other
    constructor
    · intro found
      cases found
    · rintro rfl
      exact absurd rfl (other c rest)

@[simp] theorem after?_mark (c : Char) (rest : List Token) :
    after? c (.mark c :: rest) = some rest :=
  after?_eq_some.mpr rfl

theorem notBefore_mark {marks : List Char} {c : Char} (apart : c ∉ marks) (rest : List Token) :
    NotBefore marks (.mark c :: rest) := by
  intro d member
  refine if_neg ?_
  rintro rfl
  exact apart member

theorem many_eq_none {item : Reader α} {c : Char} {input : List Token}
    (refused : item input = none) : many c item input = none := by
  simp [many, upTo, refused]

section Completeness

variable {item : Reader α} {write : α → List Token} {marks : List Char}

/-- The reader gives back what is written, unless one of the marks comes behind it. -/
def Accepts (item : Reader α) (write : α → List Token) (marks : List Char) (a : α) : Prop :=
  ∀ rest, NotBefore marks rest → item (write a ++ rest) = some (a, rest)

theorem upTo_separated {c : Char} {items : List α} {bound : Nat} {rest : List Token}
    (present : items ≠ []) (bounded : items.length ≤ bound)
    (each : ∀ a ∈ items, Accepts item write marks a) (apart : c ∉ marks)
    (ends : NotBefore (c :: marks) rest) :
    upTo c item bound (separated c (items.map write) ++ rest) = some (items, rest) := by
  obtain ⟨noMore, ends⟩ := List.forall_mem_cons.mp ends
  induction items generalizing bound with
  | nil => exact absurd rfl present
  | cons a others ih =>
    obtain ⟨own, later⟩ := List.forall_mem_cons.mp each
    cases bound with
    | zero => simp at bounded
    | succ bound =>
      cases others with
      | nil =>
        have first := own rest ends
        rw [List.map_singleton, separated_singleton]
        simp [upTo, first, noMore]
      | cons b others =>
        have first := own (.mark c :: (separated c ((b :: others).map write) ++ rest))
          (notBefore_mark apart _)
        have tail : upTo c item bound (separated c ((b :: others).map write) ++ rest) =
            some (b :: others, rest) :=
          ih (List.cons_ne_nil b others) (Nat.le_of_succ_le_succ bounded) later
        rw [List.map_cons, List.map_cons, separated_cons_cons, List.append_assoc, List.cons_append]
        rw [List.map_cons] at first tail
        simp [upTo, first, tail]

theorem accepts_many {c : Char} {items : List α} (present : items ≠ [])
    (each : ∀ a ∈ items, Accepts item write marks a) (apart : c ∉ marks) :
    Accepts (many c item) (fun items => separated c (items.map write)) (c :: marks) items := by
  intro rest ends
  refine upTo_separated present ?_ each apart ends
  have bounded := length_le_separated c (items.map write)
  rw [List.length_map] at bounded
  simp only [List.length_append]
  omega

theorem accepts_enclosed {close : Char} {items : List α}
    (each : ∀ a ∈ items, Accepts item write marks a) (comma : ',' ∉ marks)
    (apart : close ∉ ',' :: marks) (refused : ∀ rest, item (.mark close :: rest) = none)
    (rest : List Token) :
    enclosed close item (separated ',' (items.map write) ++ .mark close :: rest) =
      some (items, rest) := by
  cases items with
  | nil => simp [enclosed]
  | cons a others =>
    have listed := accepts_many (List.cons_ne_nil a others) each comma (.mark close :: rest)
      (notBefore_mark apart rest)
    have opened : after? close
        (separated ',' ((a :: others).map write) ++ .mark close :: rest) = none := by
      rw [Option.eq_none_iff_forall_ne_some]
      intro behind found
      have nothing := many_eq_none (c := ',') (refused behind)
      rw [← after?_eq_some.mp found] at nothing
      exact Option.some_ne_none _ (listed.symm.trans nothing)
    simp only [enclosed, opened, listed]
    simp

theorem accepts_both {β : Type} {second : Reader β} {writeSecond : β → List Token} {a : α} {b : β}
    (first : ∀ rest, item (write a ++ rest) = some (a, rest))
    (behind : Accepts second writeSecond marks b) :
    Accepts (both item second) (fun e => write e.1 ++ writeSecond e.2) marks (a, b) := by
  intro rest ends
  simp [both, first, behind rest ends]

end Completeness

section Soundness

variable {item : Reader α} {write : α → List Token} {good : α → Prop}

/-- From tokens of a scan the reader gives something good, which is written with as many marks of
places as have been read. -/
def Sound (item : Reader α) (write : α → List Token) (good : α → Prop) : Prop :=
  ∀ ⦃input a rest⦄, (∀ k ∈ input, k.Valid) → item input = some (a, rest) →
    good a ∧ (∀ k ∈ rest, k.Valid) ∧ places input = places (write a) + places rest

theorem sound_upTo {c : Char} {bound : Nat} (sound : Sound item write good) :
    Sound (upTo c item bound) (fun items => separated c (items.map write))
      fun items => items ≠ [] ∧ ∀ a ∈ items, good a := by
  induction bound with
  | zero =>
    intro input items rest _ found
    cases found
  | succ bound ih =>
    intro input items rest valid found
    obtain ⟨⟨a, behind⟩, first, found⟩ := Option.bind_eq_some_iff.mp found
    obtain ⟨own, behindValid, counted⟩ := sound valid first
    simp only at found
    split at found
    · cases found
      refine ⟨⟨by simp, by simpa using own⟩, behindValid, ?_⟩
      simpa using counted
    · rename_i more goesOn
      obtain ⟨⟨others, further⟩, tail, found⟩ := Option.bind_eq_some_iff.mp found
      cases found
      rw [after?_eq_some] at goesOn
      subst goesOn
      obtain ⟨⟨present, later⟩, furtherValid, countedLater⟩ :=
        ih (List.forall_mem_cons.mp behindValid).2 tail
      refine ⟨⟨by simp, List.forall_mem_cons.mpr ⟨own, later⟩⟩, furtherValid, ?_⟩
      cases others with
      | nil => exact absurd rfl present
      | cons b others =>
        simp only [List.map_cons, separated_cons_cons, places_append, places_cons]
          at counted countedLater ⊢
        omega

theorem sound_many {c : Char} (sound : Sound item write good) :
    Sound (many c item) (fun items => separated c (items.map write))
      fun items => items ≠ [] ∧ ∀ a ∈ items, good a :=
  fun _ _ _ valid found => sound_upTo sound valid found

theorem sound_enclosed {close : Char} (sound : Sound item write good) :
    Sound (enclosed close item)
      (fun items => separated ',' (items.map write) ++ [Token.mark close]) fun items =>
        ∀ a ∈ items, good a := by
  intro input items rest valid found
  unfold enclosed at found
  split at found
  · rename_i behind closed
    cases found
    rw [after?_eq_some] at closed
    subst closed
    refine ⟨by simp, (List.forall_mem_cons.mp valid).2, ?_⟩
    simp
  · obtain ⟨⟨items, behind⟩, listed, found⟩ := Option.bind_eq_some_iff.mp found
    obtain ⟨further, closed, found⟩ := Option.bind_eq_some_iff.mp found
    cases found
    rw [after?_eq_some] at closed
    subst closed
    obtain ⟨⟨-, each⟩, behindValid, counted⟩ := sound_many sound valid listed
    refine ⟨each, (List.forall_mem_cons.mp behindValid).2, ?_⟩
    simp only [places_append, places_cons, places_nil] at counted ⊢
    omega

theorem sound_both {β : Type} {second : Reader β} {writeSecond : β → List Token}
    {goodSecond : β → Prop} (sound : Sound item write good)
    (soundSecond : Sound second writeSecond goodSecond) :
    Sound (both item second) (fun e => write e.1 ++ writeSecond e.2)
      fun e => good e.1 ∧ goodSecond e.2 := by
  intro input e rest valid found
  obtain ⟨⟨a, behind⟩, first, found⟩ := Option.bind_eq_some_iff.mp found
  obtain ⟨⟨b, further⟩, next, found⟩ := Option.bind_eq_some_iff.mp found
  cases found
  obtain ⟨own, behindValid, counted⟩ := sound valid first
  obtain ⟨other, furtherValid, countedSecond⟩ := soundSecond behindValid next
  refine ⟨⟨own, other⟩, furtherValid, ?_⟩
  simp only [places_append]
  omega

end Soundness

end Reader

open Reader

namespace ObjectEntry

def Legible : ObjectEntry → Prop
  | .member name _ => Token.Unbroken name.toList
  | .others => True

def readMember (name : List Char) : Reader ObjectEntry
  | .mark ':' :: rest => some (.member (String.ofList name) true, rest)
  | .mark '?' :: .mark ':' :: rest => some (.member (String.ofList name) false, rest)
  | _ => none

/-- Reads what stands in front of the type of an entry. -/
def read : Reader ObjectEntry
  | .word name :: rest | .quoted name :: rest => readMember name rest
  | .mark '[' :: .word _ :: .mark ':' :: .word kind :: .mark ']' :: .mark ':' :: rest =>
    if kind = "string".toList then some (.others, rest) else none
  | _ => none

theorem read_tokens (e : ObjectEntry) (rest : List Token) :
    read (e.tokens ++ rest) = some (e, rest) := by
  cases e with
  | member name required =>
    have whole : String.ofList name.toList = name := String.ofList_toList
    rw [tokens]
    cases Naming.isBareName name.toList <;> cases required <;>
      exact congrArg (fun text => some (ObjectEntry.member text _, rest)) whole
  | others => rfl

theorem sound_readMember {name : List Char} {input rest : List Token} {e : ObjectEntry}
    (unbroken : Token.Unbroken name) (valid : ∀ k ∈ input, k.Valid)
    (found : readMember name input = some (e, rest)) :
    e.Legible ∧ (∀ k ∈ rest, k.Valid) ∧ places input = places e.tokens + places rest := by
  have keyless : ∀ required,
      places (ObjectEntry.member (String.ofList name) required).tokens = 0 := by
    intro required
    simp only [tokens]
    cases required <;> split <;> rfl
  unfold readMember at found
  split at found
  · cases found
    refine ⟨by simpa [Legible] using unbroken, (List.forall_mem_cons.mp valid).2, ?_⟩
    simp [keyless, Token.places]
  · cases found
    refine ⟨by simpa [Legible] using unbroken, ?_, ?_⟩
    · exact (List.forall_mem_cons.mp (List.forall_mem_cons.mp valid).2).2
    · simp [keyless, Token.places]
  · cases found

theorem sound_read : Sound read tokens Legible := by
  intro input e rest valid found
  unfold read at found
  split at found
  · obtain ⟨own, behind⟩ := List.forall_mem_cons.mp valid
    have unbroken := fun c member => (Token.of_isWordChar (own.2 c member)).2.2
    simpa [Token.places] using sound_readMember unbroken behind found
  · obtain ⟨own, behind⟩ := List.forall_mem_cons.mp valid
    simpa [Token.places] using sound_readMember own behind found
  · split at found
    · cases found
      refine ⟨trivial, fun k member => valid k (by simp [member]), ?_⟩
      simp [tokens, Token.places]
    · cases found
  · cases found

end ObjectEntry

namespace TypeTree

/-- Whether a word is a number: digits, and maybe a sign, a fraction and a power of ten. -/
def isNumeral (s : List Char) : Bool :=
  let unsigned := if s.head? = some '-' then s.tail else s
  match Json.readWhole? unsigned with
  | some (_, rest) => (Json.readExponent (Json.readFraction rest).2).2.isEmpty
  | none => false

/-- The names, numbers, literals and keys of a type are written as what they are. -/
def Legible : TypeTree → Prop
  | .name word => Token.IsWord word.toList ∧ isNumeral word.toList = false
  | .number word => Token.IsWord word.toList ∧ isNumeral word.toList = true
  | .literal text => Token.Unbroken text.toList
  | .object entries => ∀ e ∈ entries, e.1.Legible
  | _ => True

def ofWord (s : List Char) : TypeTree :=
  if isNumeral s then .number (String.ofList s) else .name (String.ofList s)

/-- Reads a type that is no junction, given how to read the types inside it. -/
def readSingle (type : Reader TypeTree) : Reader TypeTree
  | .word s :: rest =>
    match if s = "Array".toList then after? '<' rest else none with
    | none => some (ofWord s, rest)
    | some inner => do
      let (item, behind) ← type inner
      return (.array item, ← after? '>' behind)
  | .quoted s :: rest => some (.literal (String.ofList s), rest)
  | .mark '[' :: rest => do
    let (places, behind) ← enclosed ']' type rest
    return (.tuple places, behind)
  | .mark '\x7b' :: rest => do
    let (entries, behind) ← enclosed '\x7d' (both ObjectEntry.read type) rest
    return (.object entries, behind)
  | _ => none

def readJoined (j : Junction) (operand : Reader TypeTree) : Reader TypeTree := fun input => do
  let (operands, behind) ← many j.mark operand input
  return (joinOf j operands, behind)

/-- Reads a type that is nested less than `depth` deep: a union of intersections. -/
def readType : Nat → Reader TypeTree
  | 0 => fun _ => none
  | depth + 1 => readJoined .union (readJoined .intersection (readSingle (readType depth)))

def read (text : String) : Option TypeTree := do
  let tokens ← Token.scan .outside text.toList
  let (t, rest) ← readType (tokens.length + 1) tokens
  if rest.isEmpty then some t else none

theorem accepts_readJoined {j : Junction} {operand : Reader TypeTree} {marks : List Char}
    {t : TypeTree} (normal : t.Normal) (apart : j.mark ∉ marks)
    (each : ∀ part ∈ t.membersOf j, Accepts operand tokens marks part) :
    Accepts (readJoined j operand) tokens (j.mark :: marks) t := by
  intro rest ends
  have listed := accepts_many (membersOf_ne_nil normal) each apart rest ends
  simp only [separated_membersOf] at listed
  simp [readJoined, listed, joinOf_membersOf normal]

theorem readJoined_eq_none {j : Junction} {operand : Reader TypeTree} {input : List Token}
    (refused : operand input = none) : readJoined j operand input = none := by
  simp [readJoined, many_eq_none refused]

/-- No type starts with a closing bracket. -/
theorem readType_closing {c : Char} (closing : c = ']' ∨ c = '\x7d') (depth : Nat)
    (rest : List Token) : readType depth (.mark c :: rest) = none := by
  cases depth with
  | zero => rfl
  | succ depth =>
    have single : readSingle (readType depth) (.mark c :: rest) = none := by
      rcases closing with rfl | rfl <;> rfl
    exact readJoined_eq_none (readJoined_eq_none single)

theorem entry_read_closing (rest : List Token) :
    ObjectEntry.read (.mark '\x7d' :: rest) = none := rfl

/-- What is written for a type that is no junction is read as that type, if the types inside it
are. -/
theorem accepts_readSingle {depth : Nat} {t : TypeTree} (single : t.junction? = none)
    (legible : t.Legible)
    (each : ∀ part ∈ t.parts, Accepts (readType depth) tokens ['|', '&', '<'] part) :
    Accepts (readSingle (readType depth)) tokens ['<'] t := by
  intro rest ends
  have unopened : after? '<' rest = none := ends '<' (by simp)
  cases t with
  | name word | number word =>
    simp only [tokens, List.cons_append, List.nil_append, readSingle, unopened, ite_self,
      ofWord, legible.2, Bool.false_eq_true, if_false, if_true, String.ofList_toList]
  | literal text => simp [tokens, readSingle]
  | array item =>
    have inner := each item (by simp [parts]) (.mark '>' :: rest) (notBefore_mark (by decide) rest)
    simp only [tokens, List.cons_append, List.append_assoc, List.nil_append, readSingle,
      if_true, after?_mark, inner, Option.pure_def, Option.bind_eq_bind, Option.bind_some]
  | tuple places =>
    have listed : enclosed ']' (readType depth)
        (separated ',' (places.map tokens) ++ .mark ']' :: rest) = some (places, rest) :=
      accepts_enclosed each (by decide) (by decide) (readType_closing (Or.inl rfl) depth) rest
    simp [tokens, readSingle, listed]
  | object entries =>
    have pairs : ∀ e ∈ entries, Accepts (both ObjectEntry.read (readType depth))
        (fun e => e.1.tokens ++ e.2.tokens) ['|', '&', '<'] e := fun e member =>
      accepts_both (ObjectEntry.read_tokens e.1) (each e.2 (List.mem_map_of_mem member))
    have refused : ∀ rest,
        both ObjectEntry.read (readType depth) (.mark '\x7d' :: rest) = none := by
      intro rest
      simp [both, entry_read_closing]
    have listed := accepts_enclosed pairs (by decide) (by decide) refused rest
    simp [tokens, readSingle, listed]
  | join j parts => cases single

theorem length_tokens_le_of_mem_membersOf {j : Junction} {t part : TypeTree}
    (member : part ∈ t.membersOf j) : part.tokens.length ≤ t.tokens.length := by
  rw [← separated_membersOf j t]
  exact length_le_of_mem_separated (List.mem_map_of_mem member)

theorem length_tokens_lt_of_mem_parts {t part : TypeTree} (single : t.junction? = none)
    (member : part ∈ t.parts) : part.tokens.length < t.tokens.length := by
  cases t with
  | name _ | number _ | literal _ => cases member
  | array item =>
    rw [List.mem_singleton.mp member]
    simp only [tokens, List.length_cons, List.length_append]
    omega
  | tuple places =>
    have written : part.tokens ∈ places.map tokens := List.mem_map_of_mem member
    have within := length_le_of_mem_separated (c := ',') written
    simp only [tokens, tokensOfAll_eq_map, List.length_cons, List.length_append]
    omega
  | object entries =>
    obtain ⟨e, among, rfl⟩ := List.mem_map.mp member
    have written : e.1.tokens ++ e.2.tokens ∈ entries.map fun e => e.1.tokens ++ e.2.tokens :=
      List.mem_map.mpr ⟨e, among, rfl⟩
    have within := length_le_of_mem_separated (c := ',') written
    simp only [tokens, tokensOfEntries_eq_map, List.length_cons, List.length_append] at within ⊢
    omega
  | join j parts => cases single

/-- A member of a member of a type is no junction. -/
theorem junction?_eq_none {t operand part : TypeTree} (normal : t.Normal)
    (operandNormal : operand.Normal) (flat : operand.Flat)
    (among : operand ∈ t.membersOf .union) (member : part ∈ operand.membersOf .intersection) :
    part.junction? = none := by
  have noIntersection := junction?_of_mem_membersOf operandNormal member
  have noUnion : part.junction? ≠ some .union := by
    by_cases joined : operand.junction? = some .intersection
    · cases operand with
      | join j parts =>
        cases joined
        exact flat part member
      | _ => cases joined
    · rw [membersOf_of_ne joined, List.mem_singleton] at member
      exact member ▸ junction?_of_mem_membersOf normal among
  cases found : part.junction? with
  | none => rfl
  | some j =>
    cases j with
    | union => exact absurd found noUnion
    | intersection => exact absurd found noIntersection

/-- What is written for a type is read as that type: every type inside is read one level deeper,
and has fewer tokens. -/
theorem accepts_readType {depth : Nat} {t : TypeTree} (legible : t.All Legible)
    (normal : t.All Normal) (flat : t.All Flat) (deep : t.tokens.length < depth) :
    Accepts (readType depth) tokens ['|', '&', '<'] t := by
  induction depth generalizing t with
  | zero => exact absurd deep (Nat.not_lt_zero _)
  | succ depth ih =>
    have ownNormal := (all_iff.mp normal).1
    refine accepts_readJoined ownNormal (by decide) fun operand among => ?_
    have operandNormal := all_of_mem_membersOf normal among
    have operandFlat := all_of_mem_membersOf flat among
    refine accepts_readJoined (all_iff.mp operandNormal).1 (by decide) fun part member => ?_
    have single := junction?_eq_none ownNormal (all_iff.mp operandNormal).1
      (all_iff.mp operandFlat).1 among member
    have partLegible := all_of_mem_membersOf (all_of_mem_membersOf legible among) member
    have partNormal := all_of_mem_membersOf operandNormal member
    have partFlat := all_of_mem_membersOf operandFlat member
    refine accepts_readSingle single (all_iff.mp partLegible).1 fun inner inside => ?_
    have outer := length_tokens_le_of_mem_membersOf among
    have middle := length_tokens_le_of_mem_membersOf member
    have shorter := length_tokens_lt_of_mem_parts single inside
    exact ih ((all_iff.mp partLegible).2 inner inside) ((all_iff.mp partNormal).2 inner inside)
      ((all_iff.mp partFlat).2 inner inside) (by omega)

structure Readable (t : TypeTree) : Prop where
  legible : t.All Legible
  normal : t.All Normal
  flat : t.All Flat

theorem sound_readJoined {j : Junction} {operand : Reader TypeTree} {good : TypeTree → Prop}
    (sound : Sound operand tokens good) (readable : ∀ t, good t → t.Readable)
    (flat : ∀ ts : List TypeTree, (∀ t ∈ ts, good t) → Flat (.join j (ts.flatMap (membersOf j)))) :
    Sound (readJoined j operand) tokens Readable := by
  intro input t rest valid found
  obtain ⟨⟨operands, behind⟩, listed, found⟩ := Option.bind_eq_some_iff.mp found
  cases found
  obtain ⟨⟨present, each⟩, behindValid, counted⟩ := sound_many sound valid listed
  have operandsReadable : ∀ u ∈ operands, u.Readable := fun u member => readable u (each u member)
  refine ⟨⟨?_, ?_, ?_⟩, behindValid, ?_⟩
  · exact all_joinOf (fun u member => (operandsReadable u member).legible) trivial
  · exact normal_joinOf present fun u member => (operandsReadable u member).normal
  · exact all_joinOf (fun u member => (operandsReadable u member).flat) (flat operands each)
  · rw [tokens_joinOf fun u member => (all_iff.mp (operandsReadable u member).normal).1]
    exact counted

theorem readable_of_parts {t : TypeTree} (single : t.junction? = none) (legible : t.Legible)
    (each : ∀ part ∈ t.parts, part.Readable) : t.Readable where
  legible := all_iff.mpr ⟨legible, fun part member => (each part member).legible⟩
  normal := all_iff.mpr ⟨normal_of_single single, fun part member => (each part member).normal⟩
  flat := all_iff.mpr ⟨flat_of_single single, fun part member => (each part member).flat⟩

theorem readable_name {word : String} (isWord : Token.IsWord word.toList)
    (other : isNumeral word.toList = false) : (name word).Readable :=
  readable_of_parts rfl ⟨isWord, other⟩ (by simp [parts])

theorem readable_number {word : String} (isWord : Token.IsWord word.toList)
    (numeral : isNumeral word.toList = true) : (number word).Readable :=
  readable_of_parts rfl ⟨isWord, numeral⟩ (by simp [parts])

theorem readable_join {j : Junction} {parts : List TypeTree} (normal : Normal (.join j parts))
    (flat : Flat (.join j parts)) (each : ∀ part ∈ parts, part.Readable) :
    (join j parts).Readable where
  legible := all_iff.mpr ⟨trivial, fun part member => (each part member).legible⟩
  normal := all_iff.mpr ⟨normal, fun part member => (each part member).normal⟩
  flat := all_iff.mpr ⟨flat, fun part member => (each part member).flat⟩

theorem readable_ofWord {s : List Char} (word : Token.IsWord s) :
    (ofWord s).Readable ∧ (ofWord s).junction? = none ∧ places (ofWord s).tokens = 0 := by
  unfold ofWord
  split
  · rename_i numeral
    exact ⟨readable_number (by simpa using word) (by simpa using numeral), rfl, rfl⟩
  · rename_i other
    exact ⟨readable_name (by simpa using word) (by simpa using other), rfl, rfl⟩

theorem sound_readSingle {type : Reader TypeTree} (sound : Sound type tokens Readable) :
    Sound (readSingle type) tokens fun t => t.Readable ∧ t.junction? = none := by
  intro input t rest valid found
  unfold readSingle at found
  split at found
  · rename_i s behind
    obtain ⟨own, behindValid⟩ := List.forall_mem_cons.mp valid
    split at found
    · cases found
      obtain ⟨readable, single, keyless⟩ := readable_ofWord own
      refine ⟨⟨readable, single⟩, behindValid, ?_⟩
      simp [keyless, Token.places]
    · rename_i inner opened
      obtain ⟨⟨item, behind⟩, read, found⟩ := Option.bind_eq_some_iff.mp found
      obtain ⟨rest, closed, found⟩ := Option.bind_eq_some_iff.mp found
      cases found
      split at opened
      · rw [after?_eq_some] at opened closed
        subst opened closed
        obtain ⟨readable, validBehind, counted⟩ :=
          sound (List.forall_mem_cons.mp behindValid).2 read
        refine ⟨⟨readable_of_parts rfl trivial (by simpa [parts] using readable), rfl⟩, ?_, ?_⟩
        · exact (List.forall_mem_cons.mp validBehind).2
        · simpa [tokens, Token.places] using counted
      · cases opened
  · cases found
    obtain ⟨own, behindValid⟩ := List.forall_mem_cons.mp valid
    refine ⟨⟨readable_of_parts rfl ?_ (by simp [parts]), rfl⟩, behindValid, ?_⟩
    · simpa [Legible, Token.Valid] using own
    · simp [tokens, Token.places]
  · obtain ⟨⟨items, behind⟩, listed, found⟩ := Option.bind_eq_some_iff.mp found
    cases found
    obtain ⟨each, validBehind, counted⟩ :=
      sound_enclosed sound (List.forall_mem_cons.mp valid).2 listed
    refine ⟨⟨readable_of_parts rfl trivial each, rfl⟩, validBehind, ?_⟩
    simp only [tokens, tokensOfAll_eq_map, places_cons, List.cons_append, counted]
    omega
  · obtain ⟨⟨entries, behind⟩, listed, found⟩ := Option.bind_eq_some_iff.mp found
    cases found
    obtain ⟨each, validBehind, counted⟩ :=
      sound_enclosed (sound_both ObjectEntry.sound_read sound)
        (List.forall_mem_cons.mp valid).2 listed
    refine ⟨⟨readable_of_parts rfl (fun e member => (each e member).1) ?_, rfl⟩, validBehind, ?_⟩
    · intro part member
      obtain ⟨e, among, rfl⟩ := List.mem_map.mp member
      exact (each e among).2
    · simp only [tokens, tokensOfEntries_eq_map, places_cons, List.cons_append, counted]
      omega
  · cases found

/-- What has been read is readable, and has as many places as its tokens. -/
theorem sound_readType (depth : Nat) : Sound (readType depth) tokens Readable := by
  induction depth with
  | zero =>
    intro input t rest _ found
    cases found
  | succ depth ih =>
    have flatIntersection : ∀ ts : List TypeTree, (∀ t ∈ ts, t.Readable ∧ t.junction? = none) →
        Flat (.join .intersection (ts.flatMap (membersOf .intersection))) := by
      intro ts each part member
      have single : ∀ t ∈ ts, t.junction? ≠ some .intersection := by
        intro t among
        simp [(each t among).2]
      rw [flatMap_membersOf_of_ne single] at member
      simp [(each part member).2]
    have intersections := sound_readJoined (sound_readSingle ih) (fun t good => good.1)
      flatIntersection
    exact sound_readJoined intersections (fun t good => good) fun ts each => trivial

/-- A text whose tokens are those of a readable type is read as that type. -/
theorem read_of_scan {text : String} {t : TypeTree}
    (scanned : Token.scan .outside text.toList = some t.tokens) (readable : t.Readable) :
    read text = some t := by
  have found := accepts_readType readable.legible readable.normal readable.flat
    (Nat.lt_succ_self t.tokens.length) [] fun c _ => rfl
  rw [List.append_nil] at found
  simp [read, scanned, found]

/-- Only readable types are read, and they have as many places as the tokens of the text. -/
theorem of_read {text : String} {t : TypeTree} (found : read text = some t) :
    t.Readable ∧ ∃ tokens, Token.scan .outside text.toList = some tokens ∧
      places tokens = places t.tokens := by
  obtain ⟨tokens, scanned, found⟩ := Option.bind_eq_some_iff.mp found
  obtain ⟨⟨u, rest⟩, reading, found⟩ := Option.bind_eq_some_iff.mp found
  obtain ⟨readable, -, counted⟩ := sound_readType _ (Token.valid_of_scan scanned) reading
  simp only at found
  split at found
  · rename_i ended
    cases found
    rw [List.isEmpty_iff.mp ended] at counted
    exact ⟨readable, tokens, scanned, counted⟩
  · cases found

end TypeTree

end ClientGen
