import GetSet.Document

/-!
# The names of generated files

The file of a document is named for the class or interface that the document declares (`fileName_of_mem_documents`). So
two files with the same extension have the same name exactly if the documents declare the same name
(`fileName_eq_iff`).
-/

namespace GetSet

/-- What is declared for a class. -/
def Form.declaredName (className : String) : Form → String
  | .interface => interfaceName className
  | .skeleton => className

/-- A class may be called like the interface of another one. -/
theorem Form.declaredName_eq_iff {form form' : Form} {name name' : String} :
    form.declaredName name = form'.declaredName name' ↔
      (form = form' ∧ name = name') ∨
        (form = .interface ∧ form' = .skeleton ∧ name' = name ++ "Interface") ∨
        (form = .skeleton ∧ form' = .interface ∧ name = name' ++ "Interface") := by
  cases form with
  | interface =>
    cases form' with
    | interface => simp [declaredName, interfaceName]
    | skeleton => simp [declaredName, interfaceName, eq_comm]
  | skeleton =>
    cases form' with
    | interface => simp [declaredName, interfaceName]
    | skeleton => simp [declaredName]

namespace SourceUnit

variable {unit unit' : SourceUnit} {options options' : Options} {templates templates' : TemplateSet} {d d' : Document}

/-- A document is named for what it declares. -/
theorem fileName_of_mem_documents (h : d ∈ (unit.generate options templates).documents) :
    d.fileName = d.form.declaredName unit.name ++ "." ++ options.extension := by
  rcases List.mem_cons.1 h with rfl | h
  · rfl
  · obtain ⟨skeleton, -, rfl⟩ := exists_of_skeleton_generate (Option.mem_toList.1 h)
    rfl

theorem mem_documents_of_skeleton (h : (unit.generate options templates).skeleton = some d) :
    d ∈ (unit.generate options templates).documents :=
  List.mem_cons_of_mem _ (Option.mem_toList.2 h)

theorem form_of_skeleton (h : (unit.generate options templates).skeleton = some d) : d.form = .skeleton := by
  obtain ⟨skeleton, -, rfl⟩ := exists_of_skeleton_generate h
  rfl

/-- Two files with the same extension have the same name if the documents have the same form and are for classes of the
same name, or if one is the interface for a class and the other one the class with the name of this interface. -/
theorem fileName_eq_iff (hextension : options.extension = options'.extension)
    (h : d ∈ (unit.generate options templates).documents) (h' : d' ∈ (unit'.generate options' templates').documents) :
    d.fileName = d'.fileName ↔
      (d.form = d'.form ∧ unit.name = unit'.name) ∨
        (d.form = .interface ∧ d'.form = .skeleton ∧ unit'.name = unit.name ++ "Interface") ∨
        (d.form = .skeleton ∧ d'.form = .interface ∧ unit.name = unit'.name ++ "Interface") := by
  rw [fileName_of_mem_documents h, fileName_of_mem_documents h', hextension, String.append_left_inj,
    String.append_left_inj, Form.declaredName_eq_iff]

end SourceUnit

end GetSet
