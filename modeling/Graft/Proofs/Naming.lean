import Graft.Naming
import Graft.Proofs.Identifier

set_option autoImplicit false

/-!
Everything that the settings and the names of the virtual packages ask for can be imported.
-/
namespace Graft

/-- An export that an import statement can name. -/
structure Export.Importable (wanted : Export) : Prop where
  source : ∀ segment ∈ Dotted.segments wanted.source, isIdentifier segment = true
  name : isIdentifier wanted.name = true
  word : isKeyword wanted.name = false

theorem Settings.bindings_importable (settings : Settings) : settings.bindings.Importable where
  source _ mem := settings.bindingsModule.isIdentifier mem
  name := settings.bindingsExport.isIdentifier
  word := settings.bindingsExport.isKeyword

namespace Naming

theorem isAsciiPart_of_mem_mangle {type : List Char} {c : Char} (mem : c ∈ mangle type) :
    isAsciiPart c = true := by
  obtain ⟨written, -, rfl⟩ := List.mem_map.1 mem
  split
  next part => exact part
  next => decide

theorem spellsWord_lead {text : List Char} (parts : ∀ c ∈ text, isAsciiPart c = true) :
    spellsWord (lead text) = true := by
  unfold lead
  split
  next => decide
  next c rest =>
    split
    next =>
      simp only [spellsWord, Bool.and_eq_true, List.all_eq_true]
      exact ⟨by decide, parts⟩
    next letter =>
      simp only [spellsWord, Bool.and_eq_true, List.all_eq_true]
      refine ⟨?_, fun d mem => parts d (by simp [mem])⟩
      have part := parts c (by simp)
      simpa [isAsciiPart, isAsciiStart, Char.isAlphanum, letter] using part

theorem isIdentifier_segment (type : String) : isIdentifier (segment type) = true := by
  have valid : spellsIdentifier (lead (mangle type.toList)) = true :=
    spellsIdentifier_of_spellsWord (spellsWord_lead fun _ => isAsciiPart_of_mem_mangle)
  simp only [segment, isIdentifier]
  split
  next =>
    have underscore : Text.Letter.isPart '_' = true := by decide
    have line : ∀ c ∈ ['_'], Text.Letter.isPart c = true := by simpa using underscore
    simpa using spellsIdentifier_append valid line
  next => simpa using valid

theorem library_importable (settings : Settings) (decision : Decision) :
    (library settings decision).Importable := by
  cases decision with
  | static type =>
    refine ⟨fun part mem => ?_, settings.libraryExport.isIdentifier,
      settings.libraryExport.isKeyword⟩
    simp only [library, inputModule, Dotted.segments_append_point,
      Dotted.segments_of_isIdentifier settings.inputs.isIdentifier,
      Dotted.segments_of_isIdentifier (isIdentifier_segment type), List.mem_append,
      List.mem_singleton] at mem
    obtain (mem | rfl) | rfl := mem
    next => exact settings.virtualRoot.isIdentifier mem
    next => exact settings.inputs.isIdentifier
    next => exact isIdentifier_segment type
  | dynamic =>
    refine ⟨fun part mem => ?_, settings.libraryExport.isIdentifier,
      settings.libraryExport.isKeyword⟩
    simp only [library, fallbackModule, Dotted.segments_append_point,
      Dotted.segments_of_isIdentifier settings.library.isIdentifier, List.mem_append,
      List.mem_singleton] at mem
    obtain mem | rfl := mem
    next => exact settings.virtualRoot.isIdentifier mem
    next => exact settings.library.isIdentifier

end Naming

end Graft
