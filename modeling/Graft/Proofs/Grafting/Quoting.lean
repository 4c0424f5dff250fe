import Graft.Proofs.Grafting.Erasure
import Graft.Proofs.Lossless.Scan
import Mathlib.Data.List.Infix

set_option autoImplicit false

/-!
The quotes in the text of a call before and after it is given a configuration. A configuration stands apart
from what is written around it, and the quotes in it stand apart from each other, so that it only brings in
the single quotation mark.
-/
namespace Graft

open Node Source

/-- Wherever the new text stands in place of the old one, no quotes come up that were not there. -/
def AddsNoQuotes (quotes old new : Chars) : Prop :=
  ∀ front back, quotes <:+: front ++ new ++ back → quotes <:+: front ++ old ++ back

/-- Quotes do not reach over another character. -/
theorem before_or_behind {quotes front back : Chars} {c : Char} (other : c ∉ quotes)
    (inside : quotes <:+: front ++ c :: back) : quotes <:+: front ∨ quotes <:+: back := by
  obtain ⟨before, after, same⟩ := inside
  rcases List.append_eq_append_iff.1 same with ⟨rest, rfl, -⟩ | ⟨taken, early, late⟩
  · exact .inl ⟨before, rest, rfl⟩
  rcases List.cons_eq_append_iff.1 late with ⟨rfl, -⟩ | ⟨more, rfl, rfl⟩
  · exact .inl ⟨before, [], by rw [early, List.append_nil, List.append_nil]⟩
  rcases List.append_eq_append_iff.1 early with ⟨rest, -, whole⟩ | ⟨rest, -, whole⟩
  · exact (other (whole ▸ by simp)).elim
  rcases List.cons_eq_append_iff.1 whole with ⟨-, whole⟩ | ⟨rest, -, rfl⟩
  · exact (other (whole ▸ by simp)).elim
  · exact .inr ⟨rest, after, rfl⟩

/-- A word that is there, and apart from the quotes. -/
def IsApart (quotes word : Chars) : Prop := word ≠ [] ∧ ∀ c ∈ word, c ∉ quotes

theorem IsApart.append {quotes front back : Chars} (first : IsApart quotes front)
    (second : IsApart quotes back) : IsApart quotes (front ++ back) :=
  ⟨by simp [first.1], fun c mem => (List.mem_append.1 mem).elim (first.2 c) (second.2 c)⟩

theorem infix_of_word {quotes word back : Chars} (other : ∀ c ∈ word, c ∉ quotes)
    (inside : quotes <:+: word ++ back) : quotes <:+: back := by
  induction word with
  | nil => exact inside
  | cons c word ih =>
    rcases @before_or_behind quotes [] _ c (other c (by simp)) inside with none | inside
    · exact List.infix_nil.1 none ▸ List.nil_infix
    · exact ih (fun d mem => other d (by simp [mem])) inside

theorem IsApart.before_or_behind {quotes word front back : Chars} (apart : IsApart quotes word)
    (inside : quotes <:+: front ++ word ++ back) : quotes <:+: front ∨ quotes <:+: back := by
  obtain ⟨some, other⟩ := apart
  obtain ⟨first, word, rfl⟩ := List.exists_cons_of_ne_nil some
  rw [List.append_assoc, List.cons_append] at inside
  exact (Graft.before_or_behind (other first (by simp)) inside).imp_right
    (infix_of_word fun c mem => other c (by simp [mem]))

namespace AddsNoQuotes

variable {quotes first second old new other : Chars}

theorem refl (quotes text : Chars) : AddsNoQuotes quotes text text := fun _ _ => id

theorem trans (early : AddsNoQuotes quotes old other) (late : AddsNoQuotes quotes other new) :
    AddsNoQuotes quotes old new :=
  fun front back inside => early front back (late front back inside)

theorem append (head : AddsNoQuotes quotes old new) (tail : AddsNoQuotes quotes first second) :
    AddsNoQuotes quotes (old ++ first) (new ++ second) := by
  intro front back inside
  have kept := tail (front ++ new) back (by simpa using inside)
  simpa using head front (first ++ back) (by simpa using kept)

theorem of_isApart (apart : IsApart quotes new) : AddsNoQuotes quotes [] new := by
  intro front back inside
  rw [List.append_nil]
  rcases apart.before_or_behind inside with found | found
  · exact found.trans (List.prefix_append _ _).isInfix
  · exact found.trans (List.suffix_append _ _).isInfix

/-- Two quotation marks in a text that are apart from each other and from what stands around it. -/
theorem of_marked {before between after : Chars} (other : quotes ≠ [quotation])
    (first : IsApart quotes before) (second : IsApart quotes between) (third : IsApart quotes after) :
    AddsNoQuotes quotes [] (before ++ quotation :: (between ++ quotation :: after)) := by
  intro front back inside
  rw [List.append_nil]
  have single (found : quotes <:+: [quotation]) : quotes <:+: front ++ back := by
    rcases (List.infix_singleton_iff _ _).1 found with rfl | same
    · exact List.nil_infix
    · exact absurd same other
  have marks : quotes <:+: front ++ before ++ ([quotation] ++ between ++ ([quotation] ++ after ++ back)) := by
    simpa using inside
  rcases first.before_or_behind marks with found | inside
  · exact found.trans (List.prefix_append _ _).isInfix
  rcases second.before_or_behind inside with found | inside
  · exact single found
  rcases third.before_or_behind inside with found | found
  · exact single found
  · exact found.trans (List.suffix_append _ _).isInfix

end AddsNoQuotes

namespace Argument

/-- The text of an argument with its comma and its gap. -/
def written (layout : Layout) (argument : Argument) : Chars := shown layout argument.toNode.leaves

theorem written_eq (layout : Layout) (argument : Argument) : argument.written layout =
    shown layout argument.star ++ shown layout (keywordNode argument.keyword).leaves ++
      shown layout argument.value.leaves ++ shown layout argument.comma ++ shown layout argument.gap := by
  simp [written, toNode]

/-- An argument before others, which has a comma. -/
def separated (argument : Argument) : Argument :=
  if argument.comma.isEmpty then { argument with comma := [.text ", "] } else argument

theorem withCommas_append (first : List Argument) {rest : List Argument} (some : rest ≠ []) :
    withCommas (first ++ rest) = first.map separated ++ withCommas rest := by
  induction first with
  | nil => rfl
  | cons argument first ih =>
    rw [List.cons_append, withCommas_cons argument (by simp [some]), ih, List.map_cons, List.cons_append]
    rfl

/-- The text of arguments, with commas between them. -/
def writtenAll (layout : Layout) (arguments : List Argument) : Chars :=
  (withCommas arguments).flatMap (written layout)

theorem writtenAll_append (layout : Layout) (first : List Argument) {rest : List Argument} (some : rest ≠ []) :
    writtenAll layout (first ++ rest) =
      (first.map separated).flatMap (written layout) ++ writtenAll layout rest := by
  rw [writtenAll, withCommas_append first some, List.flatMap_append]
  rfl

theorem writtenAll_singleton (layout : Layout) (argument : Argument) :
    writtenAll layout [argument] = argument.written layout := by
  simp [writtenAll, withCommas]

end Argument

theorem Call.shown_toNode (layout : Layout) (call : Call) : shown layout call.toNode.leaves =
    shown layout call.parens.opening ++ shown layout call.callee.leaves ++ shown layout call.opening ++
      Argument.writtenAll layout call.arguments ++ shown layout call.closing ++
        shown layout call.parens.closing := by
  have arguments (nodes : List Argument) : shown layout (leaves.leavesAll (nodes.map Argument.toNode)) =
      nodes.flatMap (Argument.written layout) := by
    induction nodes with
    | nil => rfl
    | cons argument rest ih => simp [ih, Argument.written]
  obtain ⟨⟨opening, closing⟩, callee, before, values, after⟩ := call
  simp [toNode, arguments, Argument.writtenAll]

theorem Call.isTidy_of_ofNode? {node : Node} (wellFormed : node.wellFormed = true) (tidy : node.IsTidy)
    {call : Call} (read : ofNode? node = some call) : ∀ argument ∈ call.arguments, argument.IsTidy := by
  obtain ⟨opening, around, nodes, closing, rfl, -, -, -, -, arguments, -⟩ := parts_of_wellFormed wellFormed read
  intro argument mem
  rw [← arguments, List.mem_filterMap] at mem
  obtain ⟨written, mem, shape⟩ := mem
  obtain ⟨i, here⟩ := List.getElem?_of_mem mem
  exact tidy [2, i] written argument (by simp [part?_cons, here]) shape

theorem Call.toNode_injected (configs : List (Address × Node)) (address : Address) {call : Call}
    (separated : Argument.areSeparated call.arguments = true) :
    (call.injected configs address).toNode = call.toNode.injectParts configs address := by
  have arguments : ((call.injected configs address).arguments).map Argument.toNode =
      inject.injectFrom configs (address ++ [2]) 0 (call.arguments.map Argument.toNode) := by
    refine List.ext_getElem? fun i => ?_
    rw [getElem?_injectFrom]
    simp only [Call.injected, List.getElem?_map, List.getElem?_mapIdx, Option.map_map]
    refine congrArg (Option.map · _) (funext fun argument => ?_)
    simp [Argument.inject_toNode]
  rw [toNode_eq separated, toNode_eq (areSeparated_injected configs address separated), arguments]
  simp only [injectParts, inject.injectFrom, inject_glued]
  rw [plain, plain, inject_of_not_call configs _ (show Kind.arguments ≠ .call by decide)]
  rfl

section

variable {quotes : Chars} (only : ∀ c ∈ quotes, isQuote c = true)

include only

theorem isApart_of_plain {word : Chars} (some : word ≠ []) (plain : word.any isQuote = false) :
    IsApart quotes word :=
  ⟨some, fun c mem quote => List.any_eq_false.1 plain c mem (only c quote)⟩

theorem isApart_identifier (id : Identifier) : IsApart quotes id.text.toList := by
  refine isApart_of_plain only (fun none => ?_) (List.any_eq_false.2 fun c mem quote => ?_)
  next => exact absurd id.valid (by simp [isIdentifier, none, spellsIdentifier])
  next =>
    have part := isPart_of_mem id.valid mem
    simp only [isQuote, Bool.or_eq_true, beq_iff_eq] at quote
    rcases quote with rfl | rfl <;> exact absurd part (by decide)

variable (layout : Layout)

theorem addsNoQuotes_comma : AddsNoQuotes quotes [] ", ".toList :=
  .of_isApart (isApart_of_plain only (by decide) (by decide))

theorem addsNoQuotes_separated (argument : Argument) :
    AddsNoQuotes quotes (argument.written layout) (argument.separated.written layout) := by
  unfold Argument.separated
  split
  next none =>
    have grown := ((AddsNoQuotes.refl quotes (shown layout argument.star ++
      shown layout (Argument.keywordNode argument.keyword).leaves ++
        shown layout argument.value.leaves)).append (addsNoQuotes_comma only)).append (.refl quotes (shown layout argument.gap))
    rw [List.isEmpty_iff] at none
    simpa [Argument.written_eq, none] using grown
  next => exact .refl _ _

/-- An argument that stands apart can come last. -/
theorem addsNoQuotes_concat (arguments : List Argument) {added : Argument}
    (apart : AddsNoQuotes quotes [] (added.written layout)) :
    AddsNoQuotes quotes (Argument.writtenAll layout arguments)
      (Argument.writtenAll layout (arguments ++ [added])) := by
  rw [Argument.writtenAll_append layout arguments (by simp), Argument.writtenAll_singleton]
  rcases List.eq_nil_or_concat arguments with rfl | ⟨front, last, rfl⟩
  next => exact apart
  next =>
    have grown := ((AddsNoQuotes.refl quotes ((front.map Argument.separated).flatMap
      (Argument.written layout))).append (addsNoQuotes_separated only layout last)).append apart
    rw [List.concat_eq_append, Argument.writtenAll_append layout front (by simp), Argument.writtenAll_singleton]
    simpa using grown

/-- Where the last argument has a comma, that comes to stand behind the new one. -/
theorem addsNoQuotes_append {arguments : List Argument} {added : Argument}
    (tidy : ∀ argument ∈ arguments, argument.IsTidy) (bare : added.comma = [] ∧ added.gap = [])
    (apart : AddsNoQuotes quotes [] (added.written layout)) :
    AddsNoQuotes quotes (Argument.writtenAll layout arguments)
      (Argument.writtenAll layout (Call.append arguments added)) := by
  have concat := addsNoQuotes_concat only layout arguments apart
  unfold Call.append
  split
  next none => rwa [List.getLast?_eq_none_iff.1 none] at concat ⊢
  next last found =>
    split
    next => exact concat
    next owned =>
      obtain ⟨front, rfl⟩ := List.getLast?_eq_some_iff.1 found
      have gap : last.gap = [] := (tidy last (by simp)).resolve_left (by simpa using owned)
      have grown := (((AddsNoQuotes.refl quotes ((front.map Argument.separated).flatMap
        (Argument.written layout) ++ (shown layout last.star ++
          shown layout (Argument.keywordNode last.keyword).leaves ++
            shown layout last.value.leaves))).append (addsNoQuotes_comma only)).append apart).append
              (.refl quotes (shown layout last.comma))
      rw [List.dropLast_concat, Argument.writtenAll_append layout front (by simp),
        Argument.writtenAll_append layout front (by simp)]
      simpa [Argument.writtenAll, Argument.withCommas, Argument.written_eq, gap, bare] using grown

theorem addsNoQuotes_insert (front : List Argument) {back : List Argument} (some : back ≠ [])
    {added : Argument} (apart : AddsNoQuotes quotes [] (added.written layout)) :
    AddsNoQuotes quotes (Argument.writtenAll layout (front ++ back))
      (Argument.writtenAll layout (front ++ added :: back)) := by
  have here := apart.trans (addsNoQuotes_separated only layout added)
  have grown := (AddsNoQuotes.refl quotes ((front.map Argument.separated).flatMap
    (Argument.written layout))).append (here.append (.refl quotes (Argument.writtenAll layout back)))
  rw [Argument.writtenAll_append layout front some, Argument.writtenAll_append layout front (by simp),
    ← List.singleton_append, Argument.writtenAll_append layout [added] some]
  simpa using grown

theorem addsNoQuotes_padded (arguments : List Argument) (count : Nat) :
    AddsNoQuotes quotes (Argument.writtenAll layout arguments)
      (Argument.writtenAll layout (arguments ++ Call.placeholders count)) := by
  have hole : AddsNoQuotes quotes [] ((Argument.ofValue (.name {} Call.noneWord)).written layout) := by
    simpa [Argument.written_eq, Argument.ofValue, Argument.keywordNode] using
      AddsNoQuotes.of_isApart (isApart_identifier only Call.noneWord)
  induction count with
  | zero => simpa [Call.placeholders] using AddsNoQuotes.refl quotes (Argument.writtenAll layout arguments)
  | succ count ih =>
    rw [Call.placeholders, List.replicate_succ', ← List.append_assoc]
    exact ih.trans (addsNoQuotes_concat only layout _ hole)

theorem addsNoQuotes_attach {call : Call} {config : Node}
    (tidy : ∀ argument ∈ call.arguments, argument.IsTidy)
    (apart : AddsNoQuotes quotes [] (shown layout config.leaves)) :
    AddsNoQuotes quotes (shown layout call.toNode.leaves)
      (shown layout (call.attach config).toNode.leaves) := by
  suffices arguments : AddsNoQuotes quotes (Argument.writtenAll layout call.arguments)
      (Argument.writtenAll layout (call.attach config).arguments) by
    rw [Call.attach_eq, Call.shown_toNode, Call.shown_toNode]
    exact (((AddsNoQuotes.refl _ _).append arguments).append (.refl _ _)).append (.refl _ _)
  have valued : AddsNoQuotes quotes [] ((Argument.ofValue config).written layout) := by
    simpa [Argument.written_eq, Argument.ofValue, Argument.keywordNode] using apart
  -- Placeholders are tidy as well, so either way of putting the configuration in adds no quotes.
  have padded : ∀ argument ∈ call.arguments ++ Call.placeholders (Call.configPlace - call.positional.length),
      argument.IsTidy := by
    simp only [List.mem_append, Call.placeholders, List.mem_replicate]
    rintro argument (mem | ⟨-, rfl⟩)
    · exact tidy argument mem
    · exact .inl rfl
  have holes := addsNoQuotes_padded only layout call.arguments (Call.configPlace - call.positional.length)
  simp only [Call.attach]
  split
  next =>
    have named : AddsNoQuotes quotes []
        (({ keyword := some (Call.configWord, [.text "="]), value := config } : Argument).written layout) := by
      have word : AddsNoQuotes quotes [] "config=".toList :=
        .of_isApart (isApart_of_plain only (by decide) (by decide))
      simpa [Argument.written_eq, Argument.keywordNode, Call.configWord] using word.append apart
    exact addsNoQuotes_append only layout tidy ⟨rfl, rfl⟩ named
  next =>
    split
    next => exact holes.trans (addsNoQuotes_append only layout padded ⟨rfl, rfl⟩ valued)
    next more =>
      refine holes.trans ?_
      have long := call.two_le_length_padded
      rw [Call.padded] at long
      generalize call.arguments ++ Call.placeholders (Call.configPlace - call.positional.length) = all
        at more long ⊢
      have rest : all.drop Call.configPlace ≠ [] := by
        rw [Ne, List.drop_eq_nil_iff]
        omega
      have inserted := addsNoQuotes_insert only layout (all.take Call.configPlace) rest valued
      rwa [List.take_append_drop] at inserted

theorem addsNoQuotes_config (other : quotes ≠ [quotation]) {config : Node} (is : Work.IsConfig config) :
    AddsNoQuotes quotes [] (shown layout config.leaves) := by
  obtain ⟨bindings, library, rfl⟩ := is
  have plain {word : Chars} (some : word ≠ []) (plain : word.any isQuote = false) :=
    isApart_of_plain only some plain
  have names := (((@plain ": [".toList (by decide) (by decide)).append
    (isApart_identifier only bindings)).append (@plain ", ".toList (by decide) (by decide))).append
      (isApart_identifier only library) |>.append (@plain "]\x7d".toList (by decide) (by decide))
  have marked := AddsNoQuotes.of_marked other (@plain ['{'] (by decide) (by decide))
    (@plain "plugins".toList (by decide) (by decide)) names
  simpa [configOf, quotation] using marked

/-- Quotes that are not a single quotation mark come up nowhere in a text that is given configurations. -/
theorem addsNoQuotes_inject (other : quotes ≠ [quotation]) {configs : List (Address × Node)}
    (made : ∀ address config, configs.lookup address = some config → Work.IsConfig config) {node : Node}
    (wellFormed : node.wellFormed = true) (tidy : node.IsTidy) (address : Address) :
    AddsNoQuotes quotes (shown layout node.leaves)
      (shown layout (node.inject configs address).leaves) := by
  induction node generalizing address with
  | leaf l => exact .refl _ _
  | name parens id => exact .refl _ _
  | branch kind parens children ih =>
    have each := ((wellFormed_branch _ _ _).1 wellFormed).2
    have below (index : Nat) (nodes : List Node) (among : ∀ node ∈ nodes, node ∈ children) :
        AddsNoQuotes quotes (shown layout (leaves.leavesAll nodes))
          (shown layout (leaves.leavesAll (inject.injectFrom configs address index nodes))) := by
      induction nodes generalizing index with
      | nil => exact .refl _ _
      | cons child rest later =>
        have mem := among child (by simp)
        obtain ⟨i, here⟩ := List.getElem?_of_mem mem
        have inner : child.IsTidy := @IsTidy.part? _ child tidy [i] (by rw [part?_cons, children_branch, here]; rfl)
        rw [inject.injectFrom, leavesAll_cons, leavesAll_cons, shown_append, shown_append]
        exact (ih child mem (each child mem) inner _).append
          (later (index + 1) fun node mem => among node (by simp [mem]))
    have parts : AddsNoQuotes quotes (shown layout (branch kind parens children).leaves)
        (shown layout (injectParts configs address (branch kind parens children)).leaves) := by
      obtain ⟨opening, closing⟩ := parens
      simp only [injectParts, leaves_branch, shown_append]
      exact ((AddsNoQuotes.refl _ _).append (below 0 children fun _ => id)).append (.refl _ _)
    -- The configuration comes in after the parts, so its quotes are added to a text that has theirs.
    obtain ⟨-, same⟩ | ⟨call, config, read, given, same⟩ := inject_cases configs address wellFormed
    next => rwa [same]
    next =>
      obtain ⟨whole, separated⟩ := Call.toNode_of_ofNode? wellFormed read
      have own := Call.isTidy_of_ofNode? wellFormed tidy read
      rw [same]
      rw [← whole] at parts ⊢
      rw [← Call.toNode_injected configs address separated] at parts
      refine parts.trans (addsNoQuotes_attach only layout (fun argument mem => ?_)
        (addsNoQuotes_config only layout other (made address config given)))
      obtain ⟨i, written, rfl⟩ := List.mem_mapIdx.1 mem
      exact own call.arguments[i] (List.getElem_mem written)

end

end Graft
