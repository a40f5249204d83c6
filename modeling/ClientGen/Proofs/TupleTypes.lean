import ClientGen.Proofs.TypeMeaning

/-!
# The types of tuples

The tuples of all allowed lengths are printed, each once: those longer than there are types for
places have the text of the longest one (`Schema.tupleTexts_eq`).
-/
namespace ClientGen

/-- One more piece makes a text longer. -/
theorem Text.length_intercalate_concat (separator : List Char) (pieces : List (List Char))
    (last : List Char) :
    (separator.intercalate pieces).length + last.length ≤
      (separator.intercalate (pieces ++ [last])).length := by
  induction pieces with
  | nil => simp
  | cons piece rest ih =>
    cases rest with
    | nil =>
      simp only [List.cons_append, List.nil_append, List.intercalate_cons_cons,
        List.intercalate_singleton, List.length_append]
      omega
    | cons next rest =>
      simp only [List.cons_append, List.intercalate_cons_cons, List.length_append] at ih ⊢
      omega

namespace Schema

section Texts

variable {types : List TypeExpr}

theorem toList_tupleText (types : List TypeExpr) :
    (tupleText types).toList =
      '[' :: ", ".toList.intercalate (types.map fun t => t.text.toList) ++ [']'] := by
  simp only [tupleText, TypeExpr.joined, String.toList_append, String.toList_intercalate,
    List.map_map]
  rfl

theorem length_tupleText_take {n : Nat} {t : TypeExpr} (place : types[n]? = some t)
    (present : t.text ≠ "") :
    (tupleText (types.take n)).toList.length < (tupleText (types.take (n + 1))).toList.length := by
  have more : types.take (n + 1) = types.take n ++ [t] := by
    rw [List.take_add_one, place]
    rfl
  have longer := Text.length_intercalate_concat ", ".toList
    ((types.take n).map fun t => t.text.toList) t.text.toList
  have characters : 0 < t.text.toList.length := by
    rw [List.length_pos_iff]
    simpa using present
  rw [toList_tupleText, toList_tupleText, more, List.map_append, List.map_singleton]
  simp only [List.cons_append, List.length_cons, List.length_append]
  omega

/-- A tuple with more places has a longer text. -/
theorem length_tupleText_lt {m n : Nat} (lt : m < n) (le : n ≤ types.length)
    (present : ∀ t ∈ types.take n, t.text ≠ "") :
    (tupleText (types.take m)).toList.length < (tupleText (types.take n)).toList.length := by
  induction n, lt using Nat.le_induction with
  | base =>
    have place : types[m]? = some types[m] := List.getElem?_eq_getElem le
    have last : types[m] ∈ types.take (m + 1) := by
      rw [List.take_add_one, place]
      exact List.mem_append_right _ (List.mem_singleton_self _)
    exact length_tupleText_take place (present _ last)
  | succ n _ ih =>
    have place : types[n]? = some types[n] := List.getElem?_eq_getElem le
    have last : types[n] ∈ types.take (n + 1) := by
      rw [List.take_add_one, place]
      exact List.mem_append_right _ (List.mem_singleton_self _)
    have shorter := ih (Nat.le_of_succ_le le) fun t member =>
      present t (List.take_subset_take_left types (Nat.le_succ n) member)
    exact Nat.lt_trans shorter (length_tupleText_take place (present _ last))

/-- Tuples of all lengths from `least` on: once all places are there, no other text is added. -/
theorem distinct_tupleTexts (least more : Nat)
    (present : ∀ t ∈ types.take (least + more), t.text ≠ "") :
    TypeExpr.distinct ((List.range' least (more + 1)).map fun n => tupleText (types.take n)) =
      (List.range' (min least types.length)
        (min (least + more) types.length + 1 - min least types.length)).map
          fun n => tupleText (types.take n) := by
  induction more with
  | zero =>
    have one : min (least + 0) types.length + 1 - min least types.length = 1 := by omega
    rw [one]
    simp [TypeExpr.distinct, ← List.take_eq_take_min]
  | succ more ih =>
    have before := ih fun t member =>
      present t (List.take_subset_take_left types (by omega) member)
    rw [List.range'_concat, Nat.one_mul, List.map_append, List.map_singleton,
      TypeExpr.distinct_concat, before]
    by_cases longest : types.length ≤ least + more
    · have same : types.take (least + (more + 1)) = types.take (least + more) := by
        rw [List.take_of_length_le longest, List.take_of_length_le (by omega)]
      have known : tupleText (types.take (least + (more + 1))) ∈
          (List.range' least (more + 1)).map fun n => tupleText (types.take n) :=
        List.mem_map.mpr ⟨least + more, by simp, by rw [same]⟩
      have ends : min (least + (more + 1)) types.length = min (least + more) types.length := by
        omega
      rw [if_pos known, ends]
    · have fresh : tupleText (types.take (least + (more + 1))) ∉
          (List.range' least (more + 1)).map fun n => tupleText (types.take n) := by
        intro known
        obtain ⟨n, member, same⟩ := List.mem_map.mp known
        have upTo := List.mem_range'_1.mp member
        have shorter := length_tupleText_lt (m := n) (by omega) (by omega) present
        rw [same] at shorter
        exact Nat.lt_irrefl _ shorter
      have last : min (least + (more + 1)) types.length + 1 - min least types.length =
          min (least + more) types.length + 1 - min least types.length + 1 := by omega
      have next : min least types.length +
          1 * (min (least + more) types.length + 1 - min least types.length) =
            least + (more + 1) := by omega
      rw [if_neg fresh, last, List.range'_concat, next, List.map_append, List.map_singleton]

/-- Tuples of all lengths are printed, each once: those with more places than there are types have
the text of the longest one. -/
theorem tupleTexts_eq {least most : Nat} (le : least ≤ most)
    (present : ∀ t ∈ types.take most, t.text ≠ "") :
    tupleTexts types least most =
      (List.range' (min least types.length)
        (min most types.length + 1 - min least types.length)).map
          fun n => tupleText (types.take n) := by
  obtain ⟨more, rfl⟩ := Nat.exists_eq_add_of_le le
  rw [← distinct_tupleTexts least more present, tupleTexts, List.range'_eq_map_range, List.map_map]
  have count : ((least + more : Nat) + 1 - (least : Int)).toNat = more + 1 := by omega
  rw [count]
  rfl

end Texts

def bracketed (pieces : List (List Token)) : List Token :=
  .mark '[' :: separated ',' pieces ++ [Token.mark ']']

def tupleTokens (pieces : List (List Token)) (lengths : List Nat) : List Token :=
  separated '|' (lengths.map fun n => bracketed (pieces.take n))

theorem places_bracketed (pieces : List (List Token)) :
    places (bracketed pieces) = 1 + (pieces.length - 1) + (pieces.map places).sum := by
  have bracket : (Token.mark '[').places = 1 := rfl
  have comma : (Token.mark ',').places = 1 := rfl
  have closing : (Token.mark ']').places = 0 := rfl
  simp only [bracketed, List.cons_append, places_cons, places_append, places_nil,
    places_separated, bracket, comma, closing]
  omega

theorem places_union (lengths : List Nat) (tuple : Nat → List Token) :
    places (separated '|' (lengths.map tuple)) = (lengths.map fun n => places (tuple n)).sum := by
  have bar : (Token.mark '|').places = 0 := rfl
  rw [places_separated, bar, Nat.mul_zero, Nat.zero_add, List.map_map]
  rfl

section Places

variable {items : List Schema} {last : Schema}

/-- The tokens of the tuple with `n` places, of which those behind the items have the type of
`last`. -/
def meantTuple (items : List Schema) (last : Schema) (n : Nat) : List Token :=
  bracketed ((padded (items.map meaning) last.meaning n).map TypeTree.tokens)

theorem map_tokens_padded (n : Nat) :
    (padded (items.map meaning) last.meaning n).map TypeTree.tokens =
      (meant items).take n ++ List.replicate (n - items.length) last.meaning.tokens := by
  simp only [padded, meant, List.map_append, List.map_take, List.map_map, List.map_replicate,
    List.length_map]
  rfl

/-- What is printed in one of the places stands for one of the places. -/
theorem meaning_mem_padded {n : Nat} {part : Schema} (member : part ∈ (items ++ [last]).take n) :
    part.meaning ∈ padded (items.map meaning) last.meaning n := by
  rw [List.take_append] at member
  rcases List.mem_append.mp member with item | behind
  · refine List.mem_append_left _ ?_
    rw [← List.map_take]
    exact List.mem_map_of_mem item
  · have same : part = last := List.mem_singleton.mp (List.mem_of_mem_take behind)
    have more : n - items.length ≠ 0 := by
      intro nothing
      rw [nothing] at behind
      cases behind
    refine List.mem_append_right _ ?_
    rw [List.length_map, same]
    exact List.mem_replicate.mpr ⟨more, rfl⟩

theorem meant_concat : meant (items ++ [last]) = meant items ++ [last.meaning.tokens] := by
  simp [meant]

theorem length_meant (schemas : List Schema) : (meant schemas).length = schemas.length :=
  List.length_map _

theorem take_meant (schemas : List Schema) (n : Nat) :
    (meant schemas).take n = meant (schemas.take n) :=
  (List.map_take ..).symm

/-- Up to the place behind the items, the places of a tuple have the types of these schemas. -/
theorem meantTuple_of_le {n : Nat} (le : n ≤ items.length + 1) :
    meantTuple items last n = bracketed (meant ((items ++ [last]).take n)) := by
  rw [meantTuple, map_tokens_padded, ← take_meant, meant_concat, List.take_append, length_meant]
  rcases Nat.le_or_eq_of_le_succ le with within | behind
  · have nothing : n - items.length = 0 := by omega
    rw [nothing]
    rfl
  · have one : n - items.length = 1 := by omega
    rw [one]
    rfl

/-- A tuple with more places than there are types for them has more than the longest one. -/
theorem places_meantTuple_of_lt {n : Nat} (lt : items.length + 1 < n) :
    places (bracketed (meant (items ++ [last]))) < places (meantTuple items last n) := by
  obtain ⟨more, rfl⟩ := Nat.exists_eq_add_of_lt lt
  have all : (meant items).take (items.length + 1 + more + 1) = meant items :=
    List.take_of_length_le (by rw [length_meant]; omega)
  have rest : items.length + 1 + more + 1 - items.length = more + 1 + 1 := by omega
  rw [meantTuple, map_tokens_padded, all, rest, meant_concat]
  simp only [places_bracketed, List.replicate_succ, List.length_append, List.length_cons,
    List.length_nil, List.map_append, List.map_cons, List.map_nil, List.sum_append, List.sum_cons,
    List.sum_nil]
  omega

theorem places_meantTuple_pos (n : Nat) : 0 < places (meantTuple items last n) := by
  rw [meantTuple, places_bracketed]
  omega

variable {s : Schema} {pieces : List (List Token)} {least most : Nat}

/-- Of a tuple whose places are there, no more is printed than it means. -/
theorem places_take_le (each : List.Forall₂ Renders ((items ++ [last]).take most) pieces) {n : Nat}
    (upTo : n ≤ most) (le : n ≤ items.length + 1) :
    places (bracketed (pieces.take n)) ≤ places (meantTuple items last n) := by
  have first : List.Forall₂ Renders ((items ++ [last]).take n) (pieces.take n) := by
    have taken := List.forall₂_take n each
    rwa [List.take_take, Nat.min_eq_left upTo] at taken
  have sum := sum_places_le first
  have sameLength := first.length_eq
  rw [meantTuple_of_le le, places_bracketed, places_bracketed, length_meant, sameLength]
  omega

/-- What is printed for a tuple of a fitting length is what it means if its places are. -/
theorem renders_fitting_tuple (le : least ≤ most) (fits : most ≤ items.length + 1)
    (whole : s.meaning.tokens =
      separated '|' ((List.range' least (most + 1 - least)).map (meantTuple items last)))
    (fit : s.TuplesFit ↔ ∀ part ∈ (items ++ [last]).take most, part.TuplesFit)
    (each : List.Forall₂ Renders ((items ++ [last]).take most) pieces) :
    s.Renders (tupleTokens pieces (List.range' least (most + 1 - least))) := by
  have upTo : ∀ n ∈ List.range' least (most + 1 - least), n ≤ most := by
    intro n member
    have within := List.mem_range'_1.mp member
    omega
  have atMost : ∀ n ∈ List.range' least (most + 1 - least),
      places (bracketed (pieces.take n)) ≤ places (meantTuple items last n) := fun n member =>
    places_take_le each (upTo n member) (Nat.le_trans (upTo n member) fits)
  refine ⟨?_, ?_, ?_⟩
  · rw [whole, tupleTokens, places_union, places_union]
    exact List.sum_le_sum atMost
  · intro fitting
    rw [whole, tupleTokens, eq_meant each (fit.mp fitting)]
    congr 1
    refine List.map_congr_left fun n member => ?_
    have shorter := upTo n member
    rw [meantTuple_of_le (Nat.le_trans shorter fits), take_meant, List.take_take,
      Nat.min_eq_left shorter]
  · rw [whole, tupleTokens, places_union, places_union]
    intro all
    refine fit.mpr (tuplesFit_of_sum_places each ?_)
    have longest : most ∈ List.range' least (most + 1 - least) := by
      rw [List.mem_range'_1]
      omega
    have notLess : ¬places (bracketed (pieces.take most)) < places (meantTuple items last most) :=
      fun less => Nat.not_le_of_lt (List.sum_lt_sum _ _ atMost ⟨most, longest, less⟩) all
    have sameLength := each.length_eq
    have taken : pieces.take most = pieces := by
      refine List.take_of_length_le ?_
      rw [← sameLength, List.length_take]
      omega
    rw [meantTuple_of_le fits, taken, places_bracketed, places_bracketed, length_meant,
      sameLength] at notLess
    omega

/-- The lengths up to the greatest one are those up to some length, and those beyond it. -/
theorem range'_eq_append {n : Nat} (le : least ≤ n) (upTo : n ≤ most) :
    List.range' least (most + 1 - least) =
      List.range' least (n + 1 - least) ++ List.range' (n + 1) (most - n) := by
  have first : least + 1 * (n + 1 - least) = n + 1 := by omega
  have count : n + 1 - least + (most - n) = most + 1 - least := by omega
  rw [← count, ← List.range'_append, first]

/-- Less is printed for a tuple than it means if it has places for which there are no types. -/
theorem places_lt_of_long_tuple (le : least ≤ most) (long : items.length + 1 < most)
    (each : List.Forall₂ Renders ((items ++ [last]).take most) pieces) :
    places (tupleTokens pieces (List.range' (min least (items.length + 1))
        (items.length + 1 + 1 - min least (items.length + 1)))) <
      places (separated '|'
        ((List.range' least (most + 1 - least)).map (meantTuple items last))) := by
  have atMost : ∀ n ≤ items.length + 1,
      places (bracketed (pieces.take n)) ≤ places (meantTuple items last n) := fun n within =>
    places_take_le each (Nat.le_trans within (Nat.le_of_lt long)) within
  rw [tupleTokens, places_union, places_union]
  by_cases covered : least ≤ items.length + 1
  · -- The lengths beyond the last place are missing.
    have printed : ((List.range' least (items.length + 1 + 1 - least)).map fun n =>
        places (bracketed (pieces.take n))).sum ≤
          ((List.range' least (items.length + 1 + 1 - least)).map fun n =>
            places (meantTuple items last n)).sum := by
      refine List.sum_le_sum fun n member => atMost n ?_
      have within := List.mem_range'_1.mp member
      omega
    have further : items.length + 1 + 1 ∈
        List.range' (items.length + 1 + 1) (most - (items.length + 1)) := by
      rw [List.mem_range'_1]
      omega
    have missing : 0 < ((List.range' (items.length + 1 + 1) (most - (items.length + 1))).map
        fun n => places (meantTuple items last n)).sum :=
      Nat.lt_of_lt_of_le (places_meantTuple_pos _)
        (List.le_sum_of_mem (List.mem_map.mpr ⟨_, further, rfl⟩))
    rw [Nat.min_eq_left covered, range'_eq_append covered (Nat.le_of_lt long), List.map_append,
      List.sum_append]
    exact Nat.lt_of_le_of_lt printed (Nat.lt_add_of_pos_right missing)
  · -- The only tuple that is printed is too short.
    have whole : (items ++ [last]).take (items.length + 1) = items ++ [last] :=
      List.take_of_length_le (by simp)
    have printed := atMost (items.length + 1) (Nat.le_refl _)
    rw [meantTuple_of_le (Nat.le_refl _), whole] at printed
    have listed : least ∈ List.range' least (most + 1 - least) := by
      rw [List.mem_range'_1]
      omega
    have longer : places (bracketed (meant (items ++ [last]))) <
        places (meantTuple items last least) :=
      places_meantTuple_of_lt (by omega)
    have total : places (meantTuple items last least) ≤
        ((List.range' least (most + 1 - least)).map fun n =>
          places (meantTuple items last n)).sum :=
      List.le_sum_of_mem (List.mem_map.mpr ⟨least, listed, rfl⟩)
    have one : items.length + 1 + 1 - (items.length + 1) = 1 := by omega
    rw [Nat.min_eq_right (by omega), one, List.range'_one, List.map_singleton, List.sum_singleton]
    omega

/-- What is printed for a tuple is what it means, unless places are missing. -/
theorem renders_tuple (le : least ≤ most)
    (whole : s.meaning.tokens =
      separated '|' ((List.range' least (most + 1 - least)).map (meantTuple items last)))
    (fit : s.TuplesFit ↔
      most ≤ items.length + 1 ∧ ∀ part ∈ (items ++ [last]).take most, part.TuplesFit)
    (each : List.Forall₂ Renders ((items ++ [last]).take most) pieces) :
    s.Renders (tupleTokens pieces (List.range' (min least (items.length + 1))
      (min most (items.length + 1) + 1 - min least (items.length + 1)))) := by
  rcases Nat.lt_or_ge (items.length + 1) most with long | fits
  · have less := places_lt_of_long_tuple le long each
    rw [← whole] at less
    rw [Nat.min_eq_right (Nat.le_of_lt long)]
    refine ⟨Nat.le_of_lt less, ?_, ?_⟩
    · intro fitting
      exact absurd (fit.mp fitting).1 (Nat.not_le_of_lt long)
    · intro all
      exact absurd all (Nat.not_le_of_lt less)
  · have fit : s.TuplesFit ↔ ∀ part ∈ (items ++ [last]).take most, part.TuplesFit :=
      fit.trans (and_iff_right fits)
    rw [Nat.min_eq_left fits, Nat.min_eq_left (Nat.le_trans le fits)]
    exact renders_fitting_tuple le fits whole fit each

end Places

end Schema

end ClientGen
