import Mathlib.Data.List.Nodup
import Mathlib.Data.List.Count
import GetSet.Data.Codec

/-!
# The forms in which options are given

Options are written as an object with six fields. They are read from an object with these fields in any order and with
other fields between them, or from an array with the first few of them; what is missing has its default. Both forms are
read field by field: a field is either given once, by a value of its type, or not at all (`ofFields?_eq_some_iff`).
`decode?_exact` says which options each form gives, and that nothing is refused but too many values, a value of another
type, and a field that is given twice.
-/

namespace GetSet

/-! ## The values under a key -/

namespace Value

variable {fields fields' : List (String × Value)} {key : String} {v : Value}

theorem valuesAt_append (fields fields' : List (String × Value)) (key : String) :
    valuesAt (fields ++ fields') key = valuesAt fields key ++ valuesAt fields' key := by
  unfold valuesAt
  rw [List.filter_append, List.map_append]

theorem perm_valuesAt (h : fields.Perm fields') (key : String) : (valuesAt fields key).Perm (valuesAt fields' key) :=
  (h.filter _).map _

theorem mem_valuesAt_iff : v ∈ valuesAt fields key ↔ (key, v) ∈ fields := by
  simp [valuesAt]

theorem valuesAt_eq_nil (h : ∀ e ∈ fields, e.1 ≠ key) : valuesAt fields key = [] :=
  List.eq_nil_iff_forall_not_mem.2 fun _ hv => h _ (mem_valuesAt_iff.1 hv) rfl

theorem length_valuesAt (fields : List (String × Value)) (key : String) :
    (valuesAt fields key).length = (fields.map (·.1)).count key := by
  rw [valuesAt, List.length_map, List.count, List.countP_map, List.countP_eq_length_filter]
  rfl

theorem string?_eq_some_iff {s : String} : v.string? = some s ↔ v = .string s := by
  cases v <;> simp [string?]

theorem bool?_eq_some_iff {b : Bool} : v.bool? = some b ↔ v = .bool b := by
  cases v <;> simp [bool?]

end Value

namespace Options

variable {fields unknown : List (String × Value)} {o o' : Options}

/-! ## The fields of the options -/

/-- A field of the options, in the order in which they are declared. -/
inductive Field where
  | outputDir
  | overwriteFiles
  | argumentTypes
  | returnTypes
  | generateClasses
  | extension
deriving DecidableEq, Repr

namespace Field

/-- All fields, in order. -/
def all : List Field :=
  [outputDir, overwriteFiles, argumentTypes, returnTypes, generateClasses, extension]

theorem mem_all (f : Field) : f ∈ all := by
  cases f <;> decide

theorem nodup_all : all.Nodup := by
  decide

/-- The key under which the field stands in an object. -/
def key : Field → String
  | outputDir => "output_dir"
  | overwriteFiles => "overwrite_files"
  | argumentTypes => "argument_types"
  | returnTypes => "return_types"
  | generateClasses => "generate_classes"
  | extension => "extension"

theorem map_key_all : all.map key = keys := rfl

theorem nodup_keys : keys.Nodup := by
  decide

theorem key_injective : Function.Injective key :=
  fun f g h => List.inj_on_of_nodup_map (map_key_all ▸ nodup_keys) f.mem_all g.mem_all h

theorem key_mem_keys (f : Field) : f.key ∈ keys :=
  map_key_all ▸ List.mem_map_of_mem f.mem_all

/-- The field's value in some options. -/
def value (o : Options) : Field → Value
  | outputDir => .string o.outputDir.text
  | overwriteFiles => .bool o.overwriteFiles
  | argumentTypes => .bool o.argumentTypes
  | returnTypes => .bool o.returnTypes
  | generateClasses => .bool o.generateClasses
  | extension => .string o.extension

/-- The field with its value in some options, as it stands in an object. -/
def entry (o : Options) (f : Field) : String × Value :=
  (f.key, f.value o)

/-- Whether a value has the type of the field. -/
def accepts : Field → Value → Bool
  | outputDir, .string _ => true
  | overwriteFiles, .bool _ => true
  | argumentTypes, .bool _ => true
  | returnTypes, .bool _ => true
  | generateClasses, .bool _ => true
  | extension, .string _ => true
  | _, _ => false

/-- Replaces the field in some options by what it is in others. -/
def copy (source : Options) (target : Options) : Field → Options
  | outputDir => { target with outputDir := source.outputDir }
  | overwriteFiles => { target with overwriteFiles := source.overwriteFiles }
  | argumentTypes => { target with argumentTypes := source.argumentTypes }
  | returnTypes => { target with returnTypes := source.returnTypes }
  | generateClasses => { target with generateClasses := source.generateClasses }
  | extension => { target with extension := source.extension }

theorem value_copy (source target : Options) (f g : Field) :
    g.value (f.copy source target) = if g = f then g.value source else g.value target := by
  cases f <;> cases g <;> rfl

theorem isText_copy {source target : Options} (hsource : source.outputDir.isText = true)
    (htarget : target.outputDir.isText = true) (f : Field) : (f.copy source target).outputDir.isText = true := by
  cases f with
  | outputDir => exact hsource
  | _ => exact htarget

/-- For each field there can be options of its own. -/
theorem exists_forall_value_eq (source : Field → Options) :
    ∃ o : Options, o.outputDir.isText = true ∧ ∀ f : Field, f.value o = f.value (source f) := by
  refine ⟨{
    outputDir := .mk (source .outputDir).outputDir.text
    overwriteFiles := (source .overwriteFiles).overwriteFiles
    argumentTypes := (source .argumentTypes).argumentTypes
    returnTypes := (source .returnTypes).returnTypes
    generateClasses := (source .generateClasses).generateClasses
    extension := (source .extension).extension }, Path.isText_mk _, fun f => ?_⟩
  cases f with
  | outputDir => exact congrArg Value.string (Path.text_mk _)
  | _ => rfl

theorem accepts_value (f : Field) (o : Options) : f.accepts (f.value o) = true := by
  cases f <;> rfl

/-- A value of the right type is the field's value in some options. -/
theorem exists_value_eq {f : Field} {v : Value} (h : f.accepts v = true) : ∃ o : Options, f.value o = v := by
  cases f with
  | outputDir =>
    cases v with
    | string s => exact ⟨{ outputDir := .mk s }, congrArg Value.string (Path.text_mk s)⟩
    | _ => exact nomatch h
  | overwriteFiles =>
    cases v with
    | bool b => exact ⟨{ overwriteFiles := b }, rfl⟩
    | _ => exact nomatch h
  | argumentTypes =>
    cases v with
    | bool b => exact ⟨{ argumentTypes := b }, rfl⟩
    | _ => exact nomatch h
  | returnTypes =>
    cases v with
    | bool b => exact ⟨{ returnTypes := b }, rfl⟩
    | _ => exact nomatch h
  | generateClasses =>
    cases v with
    | bool b => exact ⟨{ generateClasses := b }, rfl⟩
    | _ => exact nomatch h
  | extension =>
    cases v with
    | string s => exact ⟨{ extension := s }, rfl⟩
    | _ => exact nomatch h

end Field

/-- Options whose directories are texts are the same if the values of all of their fields are. -/
theorem eq_of_forall_value_eq (ho : o.outputDir.isText = true) (ho' : o'.outputDir.isText = true)
    (h : ∀ f : Field, f.value o = f.value o') : o = o' := by
  have hdir : o.outputDir = o'.outputDir := by
    rw [← Path.mk_text ho, ← Path.mk_text ho']
    exact congrArg Path.mk (Value.string.inj (h .outputDir))
  have hoverwrite := h .overwriteFiles
  have hargument := h .argumentTypes
  have hreturn := h .returnTypes
  have hclasses := h .generateClasses
  have hextension := h .extension
  cases o
  cases o'
  simp only [Field.value, Value.string.injEq, Value.bool.injEq] at *
  simp only [*]

/-- The default options with some fields replaced by those of `o`. -/
def onDefaults (o : Options) (chosen : List Field) : Options :=
  chosen.foldl (fun target f => f.copy o target) {}

theorem value_onDefaults (o : Options) (chosen : List Field) (f : Field) :
    f.value (o.onDefaults chosen) = if f ∈ chosen then f.value o else f.value {} := by
  have go : ∀ target : Options, f.value (chosen.foldl (fun target f => f.copy o target) target) =
      if f ∈ chosen then f.value o else f.value target := by
    induction chosen with
    | nil => intro target; rfl
    | cons g chosen ih =>
      intro target
      rw [List.foldl_cons, ih, Field.value_copy]
      by_cases hf : f ∈ chosen
      · rw [if_pos hf, if_pos (List.mem_cons_of_mem g hf)]
      · simp only [List.mem_cons, hf, or_false, if_false]
  exact go {}

theorem isText_onDefaults (ho : o.outputDir.isText = true) (chosen : List Field) :
    (o.onDefaults chosen).outputDir.isText = true := by
  have go : ∀ target : Options, target.outputDir.isText = true →
      (chosen.foldl (fun target f => f.copy o target) target).outputDir.isText = true := by
    induction chosen with
    | nil => exact fun _ h => h
    | cons f chosen ih => exact fun target h => ih _ (Field.isText_copy ho h f)
  exact go {} (Path.isText_mk _)

/-- Nothing is left of the defaults if all fields are replaced. -/
theorem onDefaults_all (ho : o.outputDir.isText = true) : o.onDefaults Field.all = o :=
  eq_of_forall_value_eq (isText_onDefaults ho _) ho fun f => by rw [value_onDefaults, if_pos f.mem_all]

/-! ## Reading fields -/

/-- A field is given by the one value that stands under its key, or it has its default. -/
def Field.GivenBy (f : Field) (fields : List (String × Value)) (o : Options) : Prop :=
  Value.valuesAt fields f.key = [f.value o] ∨ Value.valuesAt fields f.key = [] ∧ f.value o = f.value {}

theorem field?_eq_some_iff {α : Type} {key : String} {read : Value → Option α} {missing a : α} :
    field? fields key read missing = some a ↔
      (∃ v, Value.valuesAt fields key = [v] ∧ read v = some a) ∨ Value.valuesAt fields key = [] ∧ a = missing := by
  unfold field?
  rcases Value.valuesAt fields key with _ | ⟨v, _ | ⟨w, vs⟩⟩
  · simp [eq_comm]
  · simp
  · simp

theorem field?_string?_eq_some_iff {key missing s : String} :
    field? fields key Value.string? missing = some s ↔
      Value.valuesAt fields key = [.string s] ∨ Value.valuesAt fields key = [] ∧ Value.string s = .string missing := by
  simp [field?_eq_some_iff, Value.string?_eq_some_iff]

theorem field?_bool?_eq_some_iff {key : String} {missing b : Bool} :
    field? fields key Value.bool? missing = some b ↔
      Value.valuesAt fields key = [.bool b] ∨ Value.valuesAt fields key = [] ∧ Value.bool b = .bool missing := by
  simp [field?_eq_some_iff, Value.bool?_eq_some_iff]

/-- Options are read if their directory is a text and each of their fields is given. -/
theorem ofFields?_eq_some_iff :
    ofFields? fields = some o ↔ o.outputDir.isText = true ∧ ∀ f : Field, f.GivenBy fields o := by
  constructor
  · intro h
    simp only [ofFields?, Option.bind_eq_bind, Option.bind_eq_some_iff, Option.pure_def, Option.some.injEq] at h
    obtain ⟨_, hdir, _, hoverwrite, _, hargument, _, hreturn, _, hclasses, _, hextension, rfl⟩ := h
    refine ⟨Path.isText_mk _, fun f => ?_⟩
    cases f with
    | outputDir =>
      rw [Field.GivenBy, Field.value, Field.value, Path.text_mk]
      exact field?_string?_eq_some_iff.1 hdir
    | overwriteFiles => exact field?_bool?_eq_some_iff.1 hoverwrite
    | argumentTypes => exact field?_bool?_eq_some_iff.1 hargument
    | returnTypes => exact field?_bool?_eq_some_iff.1 hreturn
    | generateClasses => exact field?_bool?_eq_some_iff.1 hclasses
    | extension => exact field?_string?_eq_some_iff.1 hextension
  · rintro ⟨htext, h⟩
    simp only [ofFields?, Option.bind_eq_bind, Option.bind_eq_some_iff, Option.pure_def, Option.some.injEq]
    refine ⟨_, field?_string?_eq_some_iff.2 (h .outputDir), _, field?_bool?_eq_some_iff.2 (h .overwriteFiles), _,
      field?_bool?_eq_some_iff.2 (h .argumentTypes), _, field?_bool?_eq_some_iff.2 (h .returnTypes), _,
      field?_bool?_eq_some_iff.2 (h .generateClasses), _, field?_string?_eq_some_iff.2 (h .extension), ?_⟩
    show { o with outputDir := .mk o.outputDir.text } = o
    rw [Path.mk_text htext]

/-- Fields are refused if one of them is given twice or has another type. -/
theorem ofFields?_eq_none_iff :
    ofFields? fields = none ↔
      ∃ f : Field, 1 < (fields.map (·.1)).count f.key ∨ ∃ v, (f.key, v) ∈ fields ∧ f.accepts v = false := by
  constructor
  · intro hnone
    by_contra hfit
    simp only [not_exists, not_or, not_and, Bool.not_eq_false, Nat.not_lt] at hfit
    -- each field is given to some options, and these fields are put together
    have hgiven : ∀ f : Field, ∃ o : Options, f.GivenBy fields o := by
      intro f
      obtain ⟨honce, haccepts⟩ := hfit f
      rw [← Value.length_valuesAt] at honce
      rcases hvalues : Value.valuesAt fields f.key with _ | ⟨v, _ | ⟨w, vs⟩⟩
      · exact ⟨{}, Or.inr ⟨hvalues, rfl⟩⟩
      · have hv : v ∈ Value.valuesAt fields f.key := by rw [hvalues]; exact List.mem_singleton_self v
        obtain ⟨o, ho⟩ := Field.exists_value_eq (haccepts v (Value.mem_valuesAt_iff.1 hv))
        exact ⟨o, Or.inl (by rw [hvalues, ho])⟩
      · rw [hvalues] at honce
        simp at honce
    choose source hsource using hgiven
    obtain ⟨o, htext, ho⟩ := Field.exists_forall_value_eq source
    have hsome : ofFields? fields = some o :=
      ofFields?_eq_some_iff.2 ⟨htext, fun f => by
        rw [Field.GivenBy, ho f]
        exact hsource f⟩
    exact nomatch hnone.symm.trans hsome
  · rintro ⟨f, hbad⟩
    by_contra hne
    obtain ⟨o, ho⟩ := Option.ne_none_iff_exists'.1 hne
    have hgiven := (ofFields?_eq_some_iff.1 ho).2 f
    rcases hbad with htwice | ⟨v, hv, hrefused⟩
    · rw [← Value.length_valuesAt] at htwice
      rcases hgiven with hvalues | ⟨hvalues, -⟩ <;> simp [hvalues] at htwice
    · rw [← Value.mem_valuesAt_iff] at hv
      rcases hgiven with hvalues | ⟨hvalues, -⟩
      · rw [hvalues, List.mem_singleton] at hv
        rw [hv, Field.accepts_value] at hrefused
        exact nomatch hrefused
      · rw [hvalues] at hv
        exact nomatch hv

/-! ## Objects -/

theorem decode?_object (fields : List (String × Value)) : decode? (.object fields) = ofFields? fields := rfl

/-- Under the key of a field stands its value, if the field is among those that are there. -/
theorem valuesAt_entries (o : Options) {chosen : List Field} (hchosen : chosen.Nodup) (f : Field) :
    Value.valuesAt (chosen.map (·.entry o)) f.key = if f ∈ chosen then [f.value o] else [] := by
  have hsame : (fun g : Field => g.key == f.key) = (· == f) :=
    funext fun g => by rw [Bool.eq_iff_iff, beq_iff_eq, beq_iff_eq, Field.key_injective.eq_iff]
  have hfilter : (chosen.map (·.entry o)).filter (·.1 == f.key) = (chosen.filter (· == f)).map (·.entry o) := by
    rw [List.filter_map, ← hsame]
    rfl
  rw [Value.valuesAt, hfilter, List.filter_beq, hchosen.count]
  split <;> rfl

/-- Any fields in any order, and whatever other fields there are: what is missing has its default. -/
theorem decode?_of_perm (ho : o.outputDir.isText = true) {chosen : List Field} (hchosen : chosen.Nodup)
    (hperm : fields.Perm (chosen.map (·.entry o) ++ unknown)) (hunknown : ∀ e ∈ unknown, e.1 ∉ keys) :
    decode? (.object fields) = some (o.onDefaults chosen) := by
  rw [decode?_object, ofFields?_eq_some_iff]
  refine ⟨isText_onDefaults ho chosen, fun f => ?_⟩
  have hvalues : (Value.valuesAt fields f.key).Perm (if f ∈ chosen then [f.value o] else []) := by
    have hother : Value.valuesAt unknown f.key = [] :=
      Value.valuesAt_eq_nil fun e he hkey => hunknown e he (hkey ▸ f.key_mem_keys)
    have hall := Value.perm_valuesAt hperm f.key
    rwa [Value.valuesAt_append, valuesAt_entries o hchosen, hother, List.append_nil] at hall
  rw [Field.GivenBy, value_onDefaults]
  by_cases hf : f ∈ chosen
  · rw [if_pos hf] at hvalues ⊢
    exact Or.inl hvalues.eq_singleton
  · rw [if_neg hf] at hvalues ⊢
    exact Or.inr ⟨hvalues.eq_nil, rfl⟩

/-! ## Arrays -/

theorem decode?_array (items : List Value) :
    decode? (.array items) = if items.length ≤ Field.all.length then ofFields? (keys.zip items) else none := by
  show (if items.length ≤ keys.length then some (keys.zip items) else none).bind ofFields? =
    if items.length ≤ keys.length then ofFields? (keys.zip items) else none
  split <;> rfl

theorem keys_zip (items : List Value) :
    keys.zip items = (Field.all.zip items).map fun (f, v) => (f.key, v) := by
  rw [← Field.map_key_all, List.zip_map_left]
  rfl

/-- The values of the first fields stand for these fields. -/
theorem keys_zip_values (o : Options) {chosen : List Field} (hchosen : chosen <+: Field.all) :
    keys.zip (chosen.map (·.value o)) = chosen.map (·.entry o) := by
  obtain ⟨rest, hrest⟩ := hchosen
  rw [← Field.map_key_all, ← hrest, List.map_append, ← List.append_nil (chosen.map (·.value o)),
    List.zip_append (by simp), List.zip_nil_right, List.append_nil, List.zip_map']
  rfl

/-- No array gives a field twice. -/
theorem count_keys_zip_le (items : List Value) (key : String) : ((keys.zip items).map (·.1)).count key ≤ 1 := by
  have hfirst : ((keys.zip items).map (·.1)).Sublist keys := by
    rw [List.zip_eq_zip_take_min, List.map_fst_zip (by simp)]
    exact List.take_sublist _ _
  exact List.nodup_iff_count_le_one.1 (Field.nodup_keys.sublist hfirst) key

theorem mem_keys_zip_iff {items : List Value} {f : Field} {v : Value} :
    (f.key, v) ∈ keys.zip items ↔ (f, v) ∈ Field.all.zip items := by
  rw [keys_zip, List.mem_map]
  constructor
  · rintro ⟨⟨g, w⟩, hmem, heq⟩
    obtain ⟨hkey, rfl⟩ := Prod.mk.inj heq
    rwa [← Field.key_injective hkey]
  · exact fun hmem => ⟨(f, v), hmem, rfl⟩

/-- An array is refused if it is too long or has a value of another type. -/
theorem decode?_array_eq_none_iff {items : List Value} :
    decode? (.array items) = none ↔
      Field.all.length < items.length ∨ ∃ f v, (f, v) ∈ Field.all.zip items ∧ f.accepts v = false := by
  rw [decode?_array]
  by_cases hlong : Field.all.length < items.length
  · rw [if_neg (Nat.not_le.2 hlong)]
    exact iff_of_true rfl (Or.inl hlong)
  · rw [if_pos (Nat.not_lt.1 hlong), ofFields?_eq_none_iff]
    have honce : ∀ f : Field, ¬1 < ((keys.zip items).map (·.1)).count f.key :=
      fun f => Nat.not_lt.2 (count_keys_zip_le items f.key)
    simp only [honce, hlong, false_or, mem_keys_zip_iff]

/-! ## Both forms -/

/-- Options are written as an object of their six fields, and that object gives them back, whatever the order of its
fields and whatever other fields there are. The values of the first few fields as an array and these fields as an object
both give the default options with these fields replaced. An array is refused exactly if it has more than six values or
one whose type is not that of its field, and an object exactly if it gives one of the six fields twice or by a value of
another type. An output directory that is no text has no place in data. -/
theorem decode?_exact :
    (∀ o : Options, o.outputDir.isText = true → o.encode = .object (Field.all.map (·.entry o)) ∧
      ∀ fields unknown : List (String × Value), fields.Perm (Field.all.map (·.entry o) ++ unknown) →
        (∀ e ∈ unknown, e.1 ∉ keys) → decode? (.object fields) = some o) ∧
      (∀ o : Options, o.outputDir.isText = true → ∀ chosen : List Field, chosen <+: Field.all →
        decode? (.array (chosen.map (·.value o))) = some (o.onDefaults chosen) ∧
          decode? (.object (chosen.map (·.entry o))) = some (o.onDefaults chosen)) ∧
      (∀ items : List Value, decode? (.array items) = none ↔
        6 < items.length ∨ ∃ f v, (f, v) ∈ Field.all.zip items ∧ f.accepts v = false) ∧
      ∀ fields : List (String × Value), decode? (.object fields) = none ↔
        ∃ f : Field, 1 < (fields.map (·.1)).count f.key ∨ ∃ v, (f.key, v) ∈ fields ∧ f.accepts v = false := by
  refine ⟨fun o ho => ⟨rfl, fun fields unknown hperm hunknown => ?_⟩, fun o ho chosen hchosen => ?_,
    fun items => decode?_array_eq_none_iff, fun fields => ofFields?_eq_none_iff⟩
  · rw [decode?_of_perm ho Field.nodup_all hperm hunknown, onDefaults_all ho]
  · have hperm : (chosen.map (·.entry o)).Perm (chosen.map (·.entry o) ++ []) := by
      rw [List.append_nil]
    have hobject : decode? (.object (chosen.map (·.entry o))) = some (o.onDefaults chosen) :=
      decode?_of_perm ho (Field.nodup_all.sublist hchosen.sublist) hperm (by simp)
    refine ⟨?_, hobject⟩
    rw [decode?_array, List.length_map, if_pos hchosen.length_le, keys_zip_values o hchosen]
    exact hobject

/-- A shuffled object with a comment and a number in it, the first two fields as an array, and a flag and a directory of
the wrong type. -/
theorem decode?_exact_commented :
    decode? (.object [("comment", .null), ("ratio", .number ⟨-15, 1⟩), ("extension", .string "inc"),
        ("generate_classes", .bool true), ("return_types", .bool false), ("argument_types", .bool true),
        ("overwrite_files", .bool false), ("output_dir", .string "gen")]) =
      some { outputDir := ⟨"gen"⟩, argumentTypes := true, generateClasses := true, extension := "inc" } ∧
    decode? (.array [.string "gen", .bool true]) = some { outputDir := ⟨"gen"⟩, overwriteFiles := true } ∧
    decode? (.object [("output_dir", .string "gen"), ("return_types", .string "yes please")]) = none ∧
    decode? (.array [.null]) = none := by
  obtain ⟨hobject, hfirst, harray, hrefused⟩ := decode?_exact
  refine ⟨?_, ?_, (hrefused _).2 ⟨.returnTypes, Or.inr ⟨.string "yes please", by simp [Field.key], rfl⟩⟩,
    (harray _).2 (Or.inr ⟨.outputDir, .null, by simp [Field.all], rfl⟩)⟩
  · let unknown := [("comment", Value.null), ("ratio", .number ⟨-15, 1⟩)]
    let own := Field.all.map
      (·.entry { outputDir := ⟨"gen"⟩, argumentTypes := true, generateClasses := true, extension := "inc" })
    have hperm : (unknown ++ own.reverse).Perm (own ++ unknown) :=
      ((List.reverse_perm own).append_left unknown).trans List.perm_append_comm
    refine (hobject _ (by simp)).2 _ unknown hperm fun e he => ?_
    rcases List.mem_pair.1 he with rfl | rfl <;> decide
  · exact (hfirst { outputDir := ⟨"gen"⟩, overwriteFiles := true } (by simp) [.outputDir, .overwriteFiles]
      (by decide)).1

end Options

end GetSet
