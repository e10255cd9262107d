import GetSet.Proofs.Document.FileName
import GetSet.Proofs.Source.Unit
import GetSet.Proofs.Writer.Collision

/-!
# The targets of generated documents

The file of a document has a name that begins with the name of a class, which is an identifier. With an extension
without a slash it is therefore the name of an entry of the output directory, whatever that directory is, and documents
share a target in one way only: the interface for a class is called like the class of another unit
(`targets_in_outputDir`).
-/

namespace GetSet

/-- A path is that of a directory with one name behind it. -/
structure Path.IsChild (p dir : Path) (name : Bytes) : Prop where
  isAbsolute_eq : p.isAbsolute = dir.isAbsolute
  names_eq : p.names = dir.names ++ [name]
  fileName?_eq : p.fileName? = some name

namespace Document

/-! ## Names that begin with an identifier -/

variable {d : Document} {name : String} (rest : String) (hname : Declaration.IsIdentifier name.toList)
  (hfile : d.fileName = name ++ rest)
include hname hfile

theorem exists_toList_fileName_eq : ∃ c cs, d.fileName.toList = c :: cs ∧ Declaration.isIdentifierStart c = true := by
  obtain ⟨c, cs, hcs, hstart⟩ := hname.start
  exact ⟨c, cs ++ rest.toList, by rw [hfile, String.toList_append, hcs, List.cons_append], hstart⟩

/-- A name that begins with an identifier leads on from a directory. -/
theorem isRelative_of_isIdentifier : d.IsRelative := by
  obtain ⟨c, cs, hlist, hstart⟩ := exists_toList_fileName_eq rest hname hfile
  constructor
  · intro hempty
    simp [hempty] at hlist
  · refine Text.isAbsolute_eq_false hlist ?_
    rintro rfl
    exact absurd hstart (by decide)

/-- A name that begins with an identifier and has no slash is plain. -/
theorem isPlain_of_isIdentifier (hrest : '/' ∉ rest.toList) : d.IsPlain := by
  obtain ⟨c, cs, hlist, hstart⟩ := exists_toList_fileName_eq rest hname hfile
  have hdots : ∀ dots : String, dots.toList.head? = some '.' → d.fileName ≠ dots := by
    rintro _ hhead rfl
    rw [hlist, List.head?_cons, Option.some.injEq] at hhead
    subst hhead
    exact absurd hstart (by decide)
  refine ⟨(isRelative_of_isIdentifier rest hname hfile).1, ?_, hdots "." rfl, hdots ".." rfl⟩
  rw [hfile, String.toList_append, List.mem_append]
  exact not_or.2 ⟨fun hmem => absurd (hname.char '/' hmem) (by decide), hrest⟩

end Document

namespace Document.IsPlain

variable {d : Document}

/-- The target of a document is a child of the output directory. -/
theorem isChild_targetPath (h : d.IsPlain) (w : Writer) : (w.targetPath d).IsChild w.outputDir d.fileName where
  isAbsolute_eq := h.piece.isAbsolute_join
  names_eq := by rw [Writer.targetPath, Path.names_join h.piece.isAbsolute_eq, h.piece.names_eq]
  fileName?_eq := h.piece.fileName?_join h.bytes_notDots

/-- The target of a document is an entry of the directory that the output directory leads to. -/
theorem place_of_locate (h : d.IsPlain) {w : Writer} {t : Tree} {dir : Location} (hdir : t.LeadsInto w.outputDir dir)
    {place : Tree.Place} (hplace : t.locate .entry (w.targetPath d) = .ok place) :
    place = t.placeOf dir d.fileName :=
  hdir.locate_entry h.piece h.bytes_notDots hplace

end Document.IsPlain

namespace SourceUnit

variable {unit : SourceUnit} {options : Options} {templates : TemplateSet} {d : Document}

/-- What follows the name of the class in the name of a document's file. -/
theorem exists_fileName_eq (hd : d ∈ (unit.generate options templates).documents) :
    ∃ rest, d.fileName = unit.name ++ rest ∧ ('/' ∉ options.extension.toList → '/' ∉ rest.toList) := by
  rw [fileName_of_mem_documents hd]
  cases d.form with
  | interface =>
    exact ⟨"Interface" ++ "." ++ options.extension, by simp [Form.declaredName, interfaceName, String.append_assoc],
      fun h => by simp [h]⟩
  | skeleton => exact ⟨"." ++ options.extension, by simp [Form.declaredName, String.append_assoc], fun h => by simp [h]⟩

theorem isRelative_of_mem_documents (hname : Declaration.IsIdentifier unit.name.toList)
    (hd : d ∈ (unit.generate options templates).documents) : d.IsRelative := by
  obtain ⟨rest, hfile, -⟩ := exists_fileName_eq hd
  exact Document.isRelative_of_isIdentifier rest hname hfile

theorem isPlain_of_mem_documents (hextension : '/' ∉ options.extension.toList)
    (hname : Declaration.IsIdentifier unit.name.toList) (hd : d ∈ (unit.generate options templates).documents) :
    d.IsPlain := by
  obtain ⟨rest, hfile, hrest⟩ := exists_fileName_eq hd
  exact Document.isPlain_of_isIdentifier rest hname hfile (hrest hextension)

/-- An interface is never called like the class that it is for. -/
theorem fileName_interface_ne (hd : (unit.generate options templates).skeleton = some d) :
    (unit.generate options templates).interface.fileName ≠ d.fileName := by
  rw [Ne, fileName_eq_iff rfl List.mem_cons_self (mem_documents_of_skeleton hd), form_of_skeleton hd]
  have hlonger : unit.name ≠ unit.name ++ "Interface" := fun heq => by simpa using congrArg String.length heq
  simpa [generate, Document.interface] using hlonger

/-- The documents of a unit that is read from a text have names without a slash, if the extension has none, and their
targets are entries of the output directory, whatever it is. With the same extension two documents have the same name
if they have the same form and are for classes of the same name, or if one is the interface for a class and the other
one the class with the name of this interface, and only then; the two documents of one unit have different names. -/
theorem targets_in_outputDir :
    (∀ text path unit, parse? text path = some unit → ∀ (options : Options) templates,
      '/' ∉ options.extension.toList → ∀ d ∈ (unit.generate options templates).documents,
        d.IsPlain ∧ ∀ w : Writer, (w.targetPath d).IsChild w.outputDir d.fileName ∧
          ∀ (t : Tree) dir, t.LeadsInto w.outputDir dir → ∀ place, t.locate .entry (w.targetPath d) = .ok place →
            place = t.placeOf dir d.fileName) ∧
    (∀ (unit unit' : SourceUnit) (options options' : Options) templates templates',
      options.extension = options'.extension → ∀ d ∈ (unit.generate options templates).documents,
        ∀ d' ∈ (unit'.generate options' templates').documents,
          d.fileName = d'.fileName ↔
            (d.form = d'.form ∧ unit.name = unit'.name) ∨
              (d.form = .interface ∧ d'.form = .skeleton ∧ unit'.name = unit.name ++ "Interface") ∨
              (d.form = .skeleton ∧ d'.form = .interface ∧ unit.name = unit'.name ++ "Interface")) ∧
    (∀ (unit : SourceUnit) options templates d, (unit.generate options templates).skeleton = some d →
      (unit.generate options templates).interface.fileName ≠ d.fileName) := by
  refine ⟨fun text path unit hparse options templates hextension d hd => ?_,
    fun _ _ _ _ _ _ hextension _ hd _ hd' => fileName_eq_iff hextension hd hd', fun _ _ _ _ => fileName_interface_ne⟩
  have hplain := isPlain_of_mem_documents hextension (isIdentifier_of_parse? hparse) hd
  exact ⟨hplain, fun w => ⟨hplain.isChild_targetPath w, fun t dir hdir place => hplain.place_of_locate hdir⟩⟩

/-- What is read from a line that declares a class and nothing else. -/
def bareClass (name : String) : SourceUnit where
  path := ⟨name ++ ".php"⟩
  name := name
  properties := []
  droppedProperties := 0

/-- The interface for one class and the class that is called like it have one target, which is where the output
directory, given as a dot, leads. -/
theorem targets_in_outputDir_bare :
    parse? "class Card" ⟨"Card.php"⟩ = some (bareClass "Card") ∧
      parse? "class CardInterface" ⟨"CardInterface.php"⟩ = some (bareClass "CardInterface") ∧
      ∃ skeleton,
        ((bareClass "CardInterface").generate { generateClasses := true } .builtin).skeleton = some skeleton ∧
        ((bareClass "Card").generate {} .builtin).interface.fileName = skeleton.fileName ∧
        ((bareClass "CardInterface").generate { generateClasses := true } .builtin).interface.fileName ≠
          skeleton.fileName ∧
        skeleton.IsPlain ∧ (⟨⟨"."⟩, false⟩ : Writer).targetPath skeleton = ⟨"./CardInterface.php"⟩ ∧
        (⟨"./CardInterface.php"⟩ : Path).IsChild ⟨"."⟩ "CardInterface.php" ∧
        Tree.empty.locate .entry ⟨"./CardInterface.php"⟩ = .ok (Tree.empty.placeOf ["work"] "CardInterface.php") := by
  have hcard : parse? "class Card" ⟨"Card.php"⟩ = some (bareClass "Card") := by decide +kernel
  have hother : parse? "class CardInterface" ⟨"CardInterface.php"⟩ = some (bareClass "CardInterface") := by
    decide +kernel
  obtain ⟨skeleton, hskeleton⟩ := Option.isSome_iff_exists.1
    (show ((bareClass "CardInterface").generate { generateClasses := true } .builtin).skeleton.isSome = true from rfl)
  have hmem := mem_documents_of_skeleton hskeleton
  obtain ⟨htargets, hnames, hne⟩ := targets_in_outputDir
  obtain ⟨hplain, hwriter⟩ := htargets _ _ _ hother { generateClasses := true } .builtin (by decide) _ hmem
  have hsame : ((bareClass "Card").generate {} .builtin).interface.fileName = skeleton.fileName :=
    (hnames _ (bareClass "CardInterface") {} { generateClasses := true } .builtin .builtin rfl _ List.mem_cons_self _
      hmem).2 (Or.inr (Or.inl ⟨rfl, form_of_skeleton hskeleton, by decide⟩))
  have hfile : skeleton.fileName = "CardInterface.php" := hsame.symm.trans (by decide +kernel)
  have htarget : (⟨⟨"."⟩, false⟩ : Writer).targetPath skeleton = ⟨"./CardInterface.php"⟩ := by
    rw [Writer.targetPath, hfile]
    decide
  obtain ⟨hchild, hplace⟩ := hwriter ⟨⟨"."⟩, false⟩
  rw [htarget, hfile] at hchild hplace
  have hleads : Tree.empty.LeadsInto ⟨"."⟩ ["work"] :=
    Or.inr ⟨by decide, ⟨.directory, rfl⟩, by decide +kernel⟩
  have hlocate : Tree.empty.locate .entry ⟨"./CardInterface.php"⟩ = .ok (.vacant ["work"] "CardInterface.php") := rfl
  exact ⟨hcard, hother, skeleton, hskeleton, hsame, hne _ _ _ _ hskeleton, hplain, htarget, hchild,
    hlocate.trans (congrArg _ (hplace _ _ hleads _ hlocate))⟩

end SourceUnit

end GetSet
