import ClientGen.Proofs.FilePaths

/-!
# The files of models

The stem of the file of a class is the key of the class with dashes put in, so that the key can be
read off it. A model table is filed by these keys: no two of its models have one file
(`Models.stems_separate`).
-/
namespace ClientGen.Models

open Naming

/-- The models of a built table are written to different files. -/
theorem nodup_fileStems {config : Config} {definitions : Value} {models : Table Model}
    (success : (ofDefinitions config definitions).outcome = .ok models) :
    (models.values.map Model.fileStem).Nodup := by
  have called : ∀ m ∈ models.values,
      m.fileStem = Naming.fileStem m.className ++ config.modelFileSuffix := by
    intro m among
    obtain ⟨key, present⟩ := Table.mem_values.mp among
    exact (namesFiles_ofDefinitions success present).fileStem
  rw [List.map_congr_left called]
  refine nodup_suffixed (nodup_classStems fun key m present => ?_) config.modelFileSuffix
  obtain ⟨filed, named, -⟩ := named_of_ofDefinitions success present
  exact ⟨filed, named⟩

/-- Without its dashes the stem of a class is the key of the class, so that classes with different
keys have different stems, and the models of a built table are written to different files. -/
theorem stems_separate :
    (∀ name, undashed (fileStem (className name)) = key (className name)) ∧
      (∀ name other, key (className name) ≠ key (className other) →
        fileStem (className name) ≠ fileStem (className other)) ∧
      ∀ config definitions models, (ofDefinitions config definitions).outcome = .ok models →
        ∀ k l m n, models.get? k = some m → models.get? l = some n → k ≠ l →
          m.fileStem ≠ n.fileStem ∧ Client.modelPath m.fileStem ≠ Client.modelPath n.fileStem := by
  refine ⟨undashed_fileStem, ?_, ?_⟩
  · intro name other apart same
    exact apart (key_eq_of_fileStem same)
  · intro config definitions models success k l m n present presentToo apart
    have differ : m.fileStem ≠ n.fileStem := by
      intro same
      have one : m = n := List.inj_on_of_nodup_map (nodup_fileStems success)
        (Table.mem_values.mpr ⟨k, present⟩) (Table.mem_values.mpr ⟨l, presentToo⟩) same
      obtain ⟨filed, -⟩ := named_of_ofDefinitions success present
      obtain ⟨filedToo, -⟩ := named_of_ofDefinitions success presentToo
      exact apart (by rw [← filed, one, filedToo])
    exact ⟨differ, fun same => differ (Client.modelPath_injective same)⟩

/-- Two definitions whose class names differ behind the third letter. -/
def zooDefinitions : Fields :=
  [(.text "pet-store", .object []), (.text "Petting zoo", .object [])]

/-- Their models have stems of their own. -/
theorem stems_separate_pets :
    key (className "pet-store") ≠ key (className "Petting zoo") ∧
      fileStem (className "pet-store") = "pet-store" ∧
      fileStem (className "Petting zoo") = "petting-zoo" ∧
      fileStem (className "pet-store") ≠ fileStem (className "Petting zoo") ∧
      ∃ models m n, (ofDefinitions {} (.object zooDefinitions)).outcome = .ok models ∧
        models.get? "petstore" = some m ∧ models.get? "pettingzoo" = some n ∧
        m.fileStem ≠ n.fileStem ∧ Client.modelPath m.fileStem ≠ Client.modelPath n.fileStem := by
  obtain ⟨-, stems, tables⟩ := stems_separate
  have store : key (className "pet-store") = "petstore" := by cbv
  have zoo : key (className "Petting zoo") = "pettingzoo" := by cbv
  have apart : key (className "pet-store") ≠ key (className "Petting zoo") := by
    rw [store, zoo]
    decide
  obtain ⟨models, m, n, success, present, presentToo⟩ :
      ∃ models m n, (ofDefinitions {} (.object zooDefinitions)).outcome = .ok models ∧
        models.get? "petstore" = some m ∧ models.get? "pettingzoo" = some n :=
    ⟨_, _, _, by cbv, by cbv, by cbv⟩
  exact ⟨apart, by cbv, by cbv, stems _ _ apart, models, m, n, success, present, presentToo,
    tables {} _ models success _ _ m n present presentToo (by decide)⟩

end ClientGen.Models
