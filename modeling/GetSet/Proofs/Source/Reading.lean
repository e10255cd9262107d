import GetSet.Proofs.Source.Property
import GetSet.Proofs.Source.Unit

/-!
# What is reported while a unit is read

That the file is parsed, and if it declares a class then every property that is kept, if that is asked for, every tag
that is dropped, and the class.
-/

namespace GetSet

namespace Event

/-- Whether an event reports that a tag is dropped. -/
def isDropped : Event → Bool
  | dropped .. => true
  | _ => false

/-- The path of a file of which an event reports that it declares no class. -/
def noClass? : Event → Option Path
  | noClass path => some path
  | _ => none

end Event

namespace SourceUnit

variable {e : Event} {verbose : Bool} {path : Path}

/-- The events of a unit. -/
theorem cases_of_mem_events {unit : SourceUnit} {text : String} (h : e ∈ unit.events verbose text) :
    (∃ tag p, tag.Spelling ∧ Property.ofTag? tag = some p ∧ e = .property unit.name tag p.pascalName) ∨
      (∃ tag : Tag, tag.Spelling ∧ e = .dropped unit.name tag) ∨
      e = .classFound unit.name unit.properties.length unit.path := by
  rcases List.mem_append.1 h with h | h
  · obtain ⟨⟨tag, reading⟩, hreading, he⟩ := List.mem_filterMap.1 h
    obtain ⟨tag', htag, heq⟩ := List.mem_map.1 hreading
    obtain ⟨rfl, rfl⟩ := Prod.mk.inj heq
    have hspelling := Tag.spelling_of_mem_scanFrom htag
    dsimp only at he
    split at he
    · next p hp =>
      split at he
      · exact Or.inl ⟨tag', p, hspelling, hp, (Option.some.inj he).symm⟩
      · exact nomatch he
    · exact Or.inr (Or.inl ⟨tag', hspelling, (Option.some.inj he).symm⟩)
  · exact Or.inr (Or.inr (List.mem_singleton.1 h))

/-- The events of loading. -/
theorem cases_of_mem_loadEvents {t : Tree} (h : e ∈ loadEvents verbose path t) :
    e = .parsing path ∨
      ∃ text unit, parse? text path = some unit ∧ e ∈ unit.events verbose (Text.withUnixLineEnds text) := by
  refine (List.mem_cons.1 h).imp_right fun h => ?_
  split at h
  · next text _ =>
    rw [readEvents] at h
    split at h
    · simp at h
    · next unit hunit => exact ⟨text, unit, hunit, h⟩
  · simp at h

/-- Nothing is reported about anything else than the file. -/
theorem filterMap_loadEvents {α : Type} (f : Event → Option α) (hparsing : ∀ path, f (.parsing path) = none)
    (hproperty : ∀ name tag pascalName, f (.property name tag pascalName) = none)
    (hdropped : ∀ name tag, f (.dropped name tag) = none)
    (hclass : ∀ name properties path, f (.classFound name properties path) = none) (t : Tree) :
    (loadEvents verbose path t).filterMap f = [] := by
  refine List.filterMap_eq_nil_iff.2 fun e he => ?_
  rcases cases_of_mem_loadEvents he with rfl | ⟨text, unit, -, he⟩
  · exact hparsing path
  · rcases cases_of_mem_events he with ⟨tag, p, -, -, rfl⟩ | ⟨tag, -, rfl⟩ | rfl
    · exact hproperty _ _ _
    · exact hdropped _ _
    · exact hclass _ _ _

/-- Every tag that is dropped is reported once. -/
theorem countP_isDropped_events {text : String} {unit : SourceUnit} (h : ofText? text path = some unit) :
    (unit.events verbose text).countP (·.isDropped) = unit.droppedProperties := by
  rw [ofText?, Option.map_eq_some_iff] at h
  obtain ⟨name, -, rfl⟩ := h
  rw [events, List.countP_append, List.countP_filterMap]
  refine (Nat.add_zero _).trans (List.countP_congr ?_)
  rintro ⟨tag, _ | p⟩ -
  · exact Iff.rfl
  · cases verbose <;> exact Iff.rfl

/-- What is reported about dropped tags while a unit is read from a file. -/
theorem countP_isDropped_loadEvents {t : Tree} {unit : Option SourceUnit} (h : t.unitAt path = .ok unit) :
    (loadEvents verbose path t).countP (·.isDropped) = (unit.map (·.droppedProperties)).getD 0 := by
  obtain ⟨text, htext, hparse⟩ := Tree.unitAt_eq_ok_iff.1 h
  rw [loadEvents, htext]
  dsimp only
  rw [List.countP_cons_of_neg (by simp [Event.isDropped]), readEvents, hparse]
  cases unit with
  | none => rfl
  | some unit => exact countP_isDropped_events hparse

end SourceUnit

end GetSet
