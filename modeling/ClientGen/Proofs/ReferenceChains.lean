import ClientGen.Proofs.CheckedReferences
import ClientGen.Proofs.SharedReferences

/-!
# Chains of references

The chain of a value is the value itself, what it refers to, what that refers to, and so on.
Following the references of a value comes to the first value on its chain that is no reference, and
fails as circular exactly if there is none (`follow_reaches_end`).

Following keeps the texts of the references that it has met, not the nodes they lead to. The same
text leads to the same node, so a chain with a text that comes up again goes round for ever
(`chain_never_ends`); a node that comes up again under another text goes unnoticed until one of the
finitely many texts does.
-/
namespace ClientGen.Reference

def reference? (v : Value) : Option String :=
  v.fields?.bind target?

def next? (document v : Value) : Option Value :=
  (reference? v).bind fun ref => (resolve document ref).toOption

def chain (document : Value) : Value → Nat → Option Value
  | v, 0 => some v
  | v, n + 1 => (next? document v).bind fun w => chain document w n

variable {document v u w : Value} {m n : Nat} {ref : String}

theorem reference?_eq_some :
    reference? v = some ref ↔ ∃ fields, v = .object fields ∧ target? fields = some ref := by
  cases v <;> simp [reference?, Value.fields?]

theorem next?_eq_some :
    next? document v = some w ↔ ∃ ref, reference? v = some ref ∧ resolve document ref = .ok w := by
  simp [next?, Option.bind_eq_some_iff, toOption_eq_some]

/-- What is no reference leads nowhere. -/
theorem next?_of_none (ends : reference? v = none) : next? document v = none := by
  simp [next?, ends]

theorem next?_congr (same : reference? u = reference? v) : next? document u = next? document v := by
  rw [next?, next?, same]

/-- What a reference leads to refers to nothing but what the document refers to. -/
theorem targets_next? (leads : next? document v = some w) : targets w ⊆ targets document := by
  obtain ⟨ref, -, resolved⟩ := next?_eq_some.mp leads
  exact targets_resolve_subset resolved

theorem reference?_mem (refers : reference? v = some ref) : ref ∈ targets v := by
  obtain ⟨fields, rfl, target⟩ := reference?_eq_some.mp refers
  exact target_mem target

theorem chain_add (m n : Nat) :
    chain document v (m + n) = (chain document v m).bind fun w => chain document w n := by
  induction m generalizing v with
  | zero => simp [chain]
  | succ m ih =>
    rw [Nat.succ_add, chain, chain, Option.bind_assoc]
    exact Option.bind_congr fun w _ => ih

theorem chain_succ (there : chain document v n = some u) :
    chain document v (n + 1) = next? document u := by
  rw [chain_add, there, Option.bind_some, chain]
  simp [chain]

/-- A chain has nothing after its end. -/
theorem chain_after_end (there : chain document v n = some w) (ends : reference? w = none)
    (later : n < m) : chain document v m = none := by
  obtain ⟨k, rfl⟩ := Nat.exists_eq_add_of_lt later
  rw [Nat.add_assoc, Nat.add_comm k 1, ← Nat.add_assoc, chain_add, chain_succ there,
    next?_of_none ends, Option.bind_none]

/-- A chain has one end. -/
theorem chain_end_unique (there : chain document v m = some u) (ends : reference? u = none)
    (other : chain document v n = some w) (stops : reference? w = none) : u = w := by
  rcases Nat.lt_trichotomy m n with before | rfl | after
  · rw [chain_after_end there ends before] at other
    cases other
  · exact Option.some.inj (there.symm.trans other)
  · rw [chain_after_end other stops after] at there
    cases there

/-- A chain on which a reference comes up twice has no end. -/
theorem chain_never_ends (first : chain document v m = some u)
    (second : chain document v n = some w) (before : m < n)
    (same : reference? u = reference? w) {k : Nat} {last : Value}
    (there : chain document v k = some last) : reference? last ≠ none := by
  intro ends
  have late : n ≤ k := by
    by_contra early
    rw [chain_after_end there ends (by omega)] at second
    cases second
  -- From the first reference on, the chain is what it is from the second one on.
  have again : chain document v (n + 1) = chain document v (m + 1) := by
    rw [chain_succ first, chain_succ second, next?_congr same]
  have repeats : chain document v (k + (n - m)) = chain document v k := by
    have earlier : k = m + 1 + (k - (m + 1)) := by omega
    have beyond : k + (n - m) = n + 1 + (k - (m + 1)) := by omega
    rw [beyond, chain_add, again, ← chain_add, ← earlier]
  rw [there, chain_after_end there ends (by omega)] at repeats
  cases repeats

section Follow

variable {reach : List String} (hdoc : targets document ⊆ reach)

/-- One step of following references. -/
theorem followFrom_cases (seen : List String) (hv : targets v ⊆ reach) :
    (reference? v = none ∧ followFrom document reach seen v hdoc hv = .ok v) ∨
    ∃ ref, reference? v = some ref ∧
      ((ref ∈ seen ∧
          followFrom document reach seen v hdoc hv = .error (.reference ref .circular)) ∨
        (∃ e, resolve document ref = .error e) ∨
        (ref ∉ seen ∧ ∃ (w : Value) (inside : targets w ⊆ reach), next? document v = some w ∧
          followFrom document reach seen v hdoc hv =
            followFrom document reach (ref :: seen) w hdoc inside)) := by
  cases v with
  | scalar s => exact Or.inl ⟨rfl, by rw [followFrom]; simp⟩
  | list items => exact Or.inl ⟨rfl, by rw [followFrom]; simp⟩
  | object fields =>
    cases target : target? fields with
    | none => exact Or.inl ⟨target, followFrom_of_none target⟩
    | some ref =>
      refine Or.inr ⟨ref, target, ?_⟩
      by_cases known : ref ∈ seen
      · exact Or.inl ⟨known, followFrom_of_seen target known⟩
      · cases resolved : resolve document ref with
        | error e => exact Or.inr (Or.inl ⟨e, rfl⟩)
        | ok w =>
          have inside : targets w ⊆ reach :=
            List.Subset.trans (targets_resolve_subset resolved) hdoc
          exact Or.inr (Or.inr ⟨known, w, inside, next?_eq_some.mpr ⟨ref, target, resolved⟩,
            followFrom_of_ok target known resolved inside⟩)

/-- Following references comes to the end of the chain, to a reference that leads nowhere, or to
one that was met before. -/
theorem followFrom_outcome (seen : List String) (v : Value) (hv : targets v ⊆ reach) :
    (∃ n w, chain document v n = some w ∧ reference? w = none ∧
      followFrom document reach seen v hdoc hv = .ok w) ∨
    (∃ n u ref, chain document v n = some u ∧ reference? u = some ref ∧ ¬Resolves document ref) ∨
    (∃ n u ref, chain document v n = some u ∧ reference? u = some ref ∧
      followFrom document reach seen v hdoc hv = .error (.reference ref .circular) ∧
      (ref ∈ seen ∨ ∃ m w, m < n ∧ chain document v m = some w ∧ reference? w = some ref)) := by
  rcases followFrom_cases hdoc seen hv with
    ⟨ends, stops⟩ | ⟨ref, refers, ⟨known, fails⟩ | ⟨e, dangles⟩ | ⟨new, w, inside, leads, goes⟩⟩
  · exact Or.inl ⟨0, v, rfl, ends, stops⟩
  · exact Or.inr (Or.inr ⟨0, v, ref, rfl, refers, fails, Or.inl known⟩)
  · refine Or.inr (Or.inl ⟨0, v, ref, rfl, refers, ?_⟩)
    rintro ⟨w, resolved⟩
    cases dangles.symm.trans resolved
  · -- One reference further on the chain of `w` is as far on the chain of `v`.
    have onward : ∀ n, chain document v (n + 1) = chain document w n := by
      intro n
      rw [chain, leads, Option.bind_some]
    have less : unseen reach (ref :: seen) < unseen reach seen :=
      unseen_cons_lt (hv (reference?_mem refers)) new
    rw [goes]
    rcases followFrom_outcome (ref :: seen) w inside with
      ⟨n, last, there, ends, stops⟩ | ⟨n, u, other, there, refers, dangles⟩ |
      ⟨n, u, other, there, refersAgain, fails, known⟩
    · exact Or.inl ⟨n + 1, last, (onward n).trans there, ends, stops⟩
    · exact Or.inr (Or.inl ⟨n + 1, u, other, (onward n).trans there, refers, dangles⟩)
    · refine Or.inr (Or.inr ⟨n + 1, u, other, (onward n).trans there, refersAgain, fails, ?_⟩)
      rcases known with known | ⟨m, before, earlier, place, refersBefore⟩
      · rcases List.mem_cons.mp known with rfl | known
        · exact Or.inr ⟨0, v, Nat.succ_pos n, rfl, refers⟩
        · exact Or.inl known
      · exact Or.inr ⟨m + 1, before, by omega, (onward m).trans place, refersBefore⟩
termination_by unseen reach seen

end Follow

/-- What comes before a value on a chain is a reference. -/
theorem chain_before (there : chain document v n = some w) (before : m < n) :
    ∃ u, chain document v m = some u ∧ reference? u ≠ none := by
  have split : n = m + (n - m) := by omega
  have reached := there
  rw [split, chain_add, Option.bind_eq_some_iff] at reached
  obtain ⟨u, earlier, -⟩ := reached
  refine ⟨u, earlier, ?_⟩
  intro ends
  rw [chain_after_end earlier ends before] at there
  cases there

/-- Where all references on a chain resolve, following them comes to its end, or fails as circular
and the chain has no end. -/
theorem follow_cases {node : Value}
    (resolving : ∀ n u ref, chain document node n = some u → reference? u = some ref →
      Resolves document ref) :
    (∃ n w, chain document node n = some w ∧ reference? w = none ∧
      follow document node = .ok w) ∨
    ((∃ ref, follow document node = .error (.reference ref .circular)) ∧
      ∀ n u, chain document node n = some u → reference? u ≠ none) := by
  have subset := List.subset_append_left (targets document) (targets node)
  rcases followFrom_outcome subset [] node (List.subset_append_right _ _) with
    ending | ⟨n, u, ref, there, refers, dangles⟩ |
    ⟨n, u, ref, there, refers, fails, known | ⟨m, w, before, earlier, refersBefore⟩⟩
  · exact Or.inl ending
  · exact absurd (resolving n u ref there refers) dangles
  · cases known
  · refine Or.inr ⟨⟨ref, fails⟩, ?_⟩
    intro k last
    exact chain_never_ends earlier there before (refersBefore.trans refers.symm)

/-- Where all references on a chain resolve, following them comes to the first value on the chain
that is no reference, and fails as circular exactly if there is none. -/
theorem follow_reaches_end {node : Value}
    (resolving : ∀ n u ref, chain document node n = some u → reference? u = some ref →
      Resolves document ref) :
    (∀ w, follow document node = .ok w ↔
      ∃ n, chain document node n = some w ∧ reference? w = none ∧
        ∀ m < n, ∃ u, chain document node m = some u ∧ reference? u ≠ none) ∧
    ((∃ ref, follow document node = .error (.reference ref .circular)) ↔
      ∀ n u, chain document node n = some u → reference? u ≠ none) := by
  rcases follow_cases resolving with ⟨n, last, there, ends, success⟩ | ⟨⟨ref, fails⟩, endless⟩
  · constructor
    · intro w
      rw [success, Except.ok.injEq]
      constructor
      · rintro rfl
        exact ⟨n, there, ends, fun m before => chain_before there before⟩
      · rintro ⟨k, other, stops, -⟩
        exact chain_end_unique there ends other stops
    · constructor
      · rintro ⟨ref, fails⟩
        rw [success] at fails
        cases fails
      · intro endless
        exact absurd ends (endless n last there)
  · constructor
    · intro w
      rw [fails]
      constructor
      · intro success
        cases success
      · rintro ⟨n, there, ends, -⟩
        exact absurd ends (endless n w there)
    · exact ⟨fun _ => endless, fun _ => ⟨ref, fails⟩⟩

/-- What is met on a chain refers to nothing but what its start and the document refer to. -/
theorem targets_chain {node : Value} (there : chain document node n = some u) :
    targets u ⊆ targets document ++ targets node := by
  cases n with
  | zero =>
    cases there
    exact List.subset_append_right _ _
  | succ n =>
    rw [chain_add, Option.bind_eq_some_iff] at there
    obtain ⟨before, -, last⟩ := there
    rw [chain, Option.bind_eq_some_iff] at last
    obtain ⟨w, leads, last⟩ := last
    cases last
    exact List.Subset.trans (targets_next? leads) (List.subset_append_left _ _)

/-- A chain resolves if the references of its start and of the document do. -/
theorem resolves_of_targets (document node : Value)
    (resolving : ∀ ref ∈ targets document ++ targets node, Resolves document ref) (n : Nat)
    (u : Value) (ref : String) (there : chain document node n = some u)
    (refers : reference? u = some ref) : Resolves document ref :=
  resolving ref (targets_chain there (reference?_mem refers))

instance (document : Value) (ref : String) : Decidable (Resolves document ref) :=
  decidable_of_iff ((resolve document ref).toOption.isSome) (by
    simp [Resolves, Option.isSome_iff_exists, toOption_eq_some])

def referTo (ref : String) : Value :=
  .object [(.text "$ref", .text ref)]

/-- A document with a parameter under two names, and with a reference that leads back to itself
under another spelling. -/
def namesDocument : Value :=
  .object [(.text "limit", referTo "#/parameters//limit"),
    (.text "parameters", .object [(.text "limit", .object [(.text "in", .text "query")])]),
    (.text "loop", referTo "#//loop")]

/-- The one name is followed to the parameter; the reference to itself fails once its second
spelling has come up twice. -/
theorem follow_reaches_end_names :
    (∀ ref ∈ targets namesDocument ++ ["#/limit", "#/loop"], Resolves namesDocument ref) ∧
    follow namesDocument (referTo "#/limit") = .ok (.object [(.text "in", .text "query")]) ∧
    ∃ ref, follow namesDocument (referTo "#/loop") = .error (.reference ref .circular) := by
  have limit := follow_reaches_end
    (resolves_of_targets namesDocument (referTo "#/limit") (by decide))
  have loop := follow_reaches_end
    (resolves_of_targets namesDocument (referTo "#/loop") (by decide))
  have parameter : chain namesDocument (referTo "#/limit") 2 =
      some (.object [(.text "in", .text "query")]) := by decide
  have first : chain namesDocument (referTo "#/loop") 1 = some (referTo "#//loop") := by decide
  have second : chain namesDocument (referTo "#/loop") 2 = some (referTo "#//loop") := by decide
  refine ⟨by decide, ?_, ?_⟩
  · exact (limit.1 _).mpr ⟨2, parameter, rfl, fun m => chain_before parameter⟩
  · exact loop.2.mpr fun n last => chain_never_ends first second (by decide) rfl

end ClientGen.Reference
