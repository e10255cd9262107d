import GetSet.Loading
import GetSet.Proofs.Action.Reporting
import GetSet.Proofs.Tree.Growth

/-!
# Units in a tree

What a run reads from a file (`Tree.unitAt`), and what is known of it: the name of a unit is an identifier, so that it
can begin the name of a file.
-/

namespace GetSet

namespace Declaration

/-! ## Identifiers -/

/-- An identifier and nothing else. -/
structure IsIdentifier (word : List Char) : Prop where
  start : ∃ c cs, word = c :: cs ∧ isIdentifierStart c = true
  char : ∀ c ∈ word, isIdentifierChar c = true

theorem isIdentifier_of_identifier? {word name : List Char} (h : identifier? word = some name) :
    IsIdentifier name := by
  cases word with
  | nil => simp [identifier?] at h
  | cons c cs =>
    rw [identifier?] at h
    split at h
    · next hstart =>
      obtain rfl := Option.some.inj h
      refine ⟨⟨c, _, rfl, hstart⟩, fun d hd => ?_⟩
      rcases List.mem_cons.1 hd with rfl | hd
      · simp [isIdentifierChar, hstart]
      · exact List.all_eq_true.1 (List.all_takeWhile) d hd
    · simp at h

theorem isIdentifier_of_ofWords? {words : List (List Char)} {name : List Char} (h : ofWords? words = some name) :
    IsIdentifier name := by
  induction words with
  | nil => simp [ofWords?] at h
  | cons word rest ih =>
    rw [ofWords?] at h
    split at h
    · obtain ⟨next, -, hnext⟩ := Option.bind_eq_some_iff.1 h
      exact isIdentifier_of_identifier? hnext
    · split at h
      · exact ih h
      · simp at h

/-- The name of a class is an identifier. -/
theorem isIdentifier_of_className? {text name : String} (h : className? text = some name) :
    IsIdentifier name.toList := by
  rw [className?, Option.map_eq_some_iff] at h
  obtain ⟨chars, hfind, rfl⟩ := h
  obtain ⟨line, -, hline⟩ := List.exists_of_findSome?_eq_some hfind
  rw [String.toList_ofList]
  exact isIdentifier_of_ofWords? hline

end Declaration

/-! ## Reading a unit -/

/-- The unit that the file at a path declares, if it declares a class. -/
def Tree.unitAt (t : Tree) (path : Path) : Except Fault (Option SourceUnit) :=
  if t.pathExists path then
    ((t.readText path).mapError (.access path)).map fun text => SourceUnit.parse? text path
  else
    .error (.missingInput path)

/-- What can be read exists. -/
theorem Tree.pathExists_of_readText {t : Tree} {path : Path} {text : String} (h : t.readText path = .ok text) :
    t.pathExists path = true := by
  obtain ⟨l, _, hleads, -⟩ := readText_eq_ok_iff.1 h
  exact pathExists_iff.2 ⟨l, hleads⟩

namespace SourceUnit

/-- What is reported while a unit is read from the content of a file. -/
def readEvents (verbose : Bool) (content : String) (path : Path) : List Event :=
  match parse? content path with
  | none => []
  | some unit => unit.events verbose (Text.withUnixLineEnds content)

theorem exec_read (verbose : Bool) (content : String) (path : Path) (w : Workspace) :
    (read verbose content path).exec w =
      (.ok (parse? content path), { w with journal := w.journal ++ readEvents verbose content path }) := by
  unfold read readEvents
  cases parse? content path with
  | none => simp
  | some unit => simp [Except.map]

/-- What is reported while a unit is read from a file. -/
def loadEvents (verbose : Bool) (path : Path) (t : Tree) : List Event :=
  .parsing path ::
    match t.readText path with
    | .ok content => readEvents verbose content path
    | .error _ => []

theorem exec_load (verbose : Bool) (path : Path) (w : Workspace) :
    (load verbose path).exec w =
      (w.tree.unitAt path, { w with journal := w.journal ++ loadEvents verbose path w.tree }) := by
  unfold load Tree.unitAt loadEvents
  by_cases hexists : w.tree.pathExists path = true
  · cases htext : w.tree.readText path with
    | error e =>
      simp [hexists, htext, Action.mapError_error, Except.map]
    | ok text =>
      simp [hexists, htext, Action.mapError_ok, Except.map, exec_read]
  · cases htext : w.tree.readText path with
    | error e =>
      simp [hexists]
    | ok text =>
      exact absurd (Tree.pathExists_of_readText htext) hexists

theorem additive_load (verbose : Bool) (path : Path) : (load verbose path).Additive :=
  Action.additive_of_exec (fun t => (t.unitAt path, t)) (loadEvents verbose path) (exec_load verbose path)

theorem oblivious_load (verbose : Bool) (path : Path) : (load verbose path).Oblivious :=
  (additive_load verbose path).oblivious

/-- Loading a unit finds what is at the path and leaves the tree as it is. -/
theorem effect_load (verbose : Bool) (path : Path) (t : Tree) :
    (load verbose path).effect t = (t.unitAt path, t) := by
  rw [Action.effect, Action.runOn, exec_load]

theorem finds_load (verbose : Bool) (path : Path) : (load verbose path).Finds (·.unitAt path) :=
  (oblivious_load verbose path).finds (effect_load verbose path)

theorem journal_load (verbose : Bool) (path : Path) (t : Tree) :
    (load verbose path).journal t = loadEvents verbose path t := by
  rw [Action.journal, Action.runOn, exec_load, List.nil_append]

end SourceUnit

/-- A unit is found where a text can be read that declares it. -/
theorem Tree.unitAt_eq_ok_iff {t : Tree} {path : Path} {unit : Option SourceUnit} :
    t.unitAt path = .ok unit ↔ ∃ text, t.readText path = .ok text ∧ SourceUnit.parse? text path = unit := by
  rw [unitAt]
  split
  · cases htext : t.readText path with
    | error e =>
      simp [Action.mapError_error, Except.map]
    | ok text =>
      simp [Action.mapError_ok, Except.map]
  · next hmissing =>
    constructor
    · simp
    · rintro ⟨text, htext, -⟩
      exact absurd (pathExists_of_readText htext) hmissing

/-- A unit is found where a path leads to a file with a text that declares it. -/
theorem Tree.unitAt_eq_ok_iff_file {t : Tree} {path : Path} {unit : Option SourceUnit} :
    t.unitAt path = .ok unit ↔ ∃ l content text, t.LeadsTo path l ∧ t.get? l = some (.file content) ∧
      String.fromUTF8? content = some text ∧ SourceUnit.parse? text path = unit := by
  rw [unitAt_eq_ok_iff]
  constructor
  · rintro ⟨text, htext, hparse⟩
    obtain ⟨l, content, hleads, hl, hcontent⟩ := readText_eq_ok_iff.1 htext
    exact ⟨l, content, text, hleads, hl, hcontent, hparse⟩
  · rintro ⟨l, content, text, hleads, hl, hcontent, hparse⟩
    exact ⟨text, readText_eq_ok_iff.2 ⟨l, content, hleads, hl, hcontent⟩, hparse⟩

/-- A unit is read from a file that holds a text. -/
theorem Tree.unitAt_of_text {t : Tree} {path : Path} {l : Location} {text : String} (hleads : t.LeadsTo path l)
    (hl : t.get? l = some (.file text.toUTF8)) : t.unitAt path = .ok (SourceUnit.parse? text path) :=
  unitAt_eq_ok_iff_file.2 ⟨l, _, text, hleads, hl, fromUTF8?_toUTF8 text, rfl⟩

namespace SourceUnit

/-- The name of a unit is an identifier. -/
theorem isIdentifier_of_parse? {text : String} {path : Path} {unit : SourceUnit} (h : parse? text path = some unit) :
    Declaration.IsIdentifier unit.name.toList := by
  rw [parse?, ofText?, Option.map_eq_some_iff] at h
  obtain ⟨name, hname, rfl⟩ := h
  exact Declaration.isIdentifier_of_className? hname

/-- A unit comes from the file that it was read from. -/
theorem path_of_parse? {text : String} {path : Path} {unit : SourceUnit} (h : parse? text path = some unit) :
    unit.path = path := by
  rw [parse?, ofText?, Option.map_eq_some_iff] at h
  obtain ⟨name, -, rfl⟩ := h
  rfl

end SourceUnit

end GetSet
