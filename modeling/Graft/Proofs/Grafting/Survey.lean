import Graft.Proofs.Grafting.Place
import Graft.Proofs.Grafting.Work
import Graft.Proofs.Scope.Silence

set_option autoImplicit false

/-!
The survey of a tree with its configurations. They say nothing to a survey, so the step of a node is
mirrored by the step of what the injection makes of it, wherever that stands.
-/
namespace Graft

open Node

namespace Node

variable (configs : List (Address × Node)) (address : Address) (node : Node)

theorem isAbsent_inject : (node.inject configs address).isAbsent = node.isAbsent := by
  have absent (kind : Kind) (parens : Parens) (nodes : List Node) :
      (branch kind parens nodes).isAbsent = (kind = .glue && nodes.isEmpty) := by
    unfold isAbsent
    split
    next same => injection same with same _ none; simp [same, none]
    next other =>
      cases nodes with
      | nil => simpa using fun same => other parens (by rw [same])
      | cons => simp
  cases node with
  | leaf l => rfl
  | name parens id => rfl
  | branch kind parens children =>
    by_cases called : kind = .call
    next =>
      obtain ⟨nodes, same⟩ := exists_inject_branch configs address kind parens children
      rw [same, absent, absent, called]
      simp
    next =>
      rw [inject_of_not_call configs address called, absent, absent]
      cases children <;> simp [inject.injectFrom]

theorem nodeText_inject : Scope.nodeText (node.inject configs address) = Scope.nodeText node := by
  cases node with
  | leaf l => rfl
  | name parens id => rfl
  | branch kind parens children =>
    obtain ⟨nodes, same⟩ := exists_inject_branch configs address kind parens children
    rw [same]
    rfl

theorem looseName?_inject : Scope.looseName? (node.inject configs address) = Scope.looseName? node := by
  induction node generalizing address with
  | leaf l => rfl
  | name parens id => rfl
  | branch kind parens children ih =>
    by_cases member : kind = .member
    next =>
      subst member
      rw [inject_of_not_call configs address (by decide)]
      rcases children with _ | ⟨base, _ | ⟨dot, _ | ⟨last, _ | ⟨next, rest⟩⟩⟩⟩
      case cons.cons.cons.nil =>
        cases last with
        | leaf l => simp [inject.injectFrom, inject, Scope.looseName?]
        | name _ id => simp [inject.injectFrom, inject, Scope.looseName?, ih base (by simp)]
        | branch inner around parts =>
          obtain ⟨nodes, same⟩ := exists_inject_branch configs (address ++ [0 + 1 + 1]) inner around parts
          simp [inject.injectFrom, same, Scope.looseName?]
      all_goals simp [inject.injectFrom, Scope.looseName?]
    by_cases subscript : kind = .subscript
    next =>
      subst subscript
      rw [inject_of_not_call configs address (by decide)]
      rcases children with _ | ⟨base, _ | ⟨opening, _ | ⟨items, _ | ⟨closing, _ | ⟨next, rest⟩⟩⟩⟩⟩
      case cons.cons.cons.cons.nil =>
        simp [inject.injectFrom, Scope.looseName?, ih base (by simp)]
      all_goals simp [inject.injectFrom, Scope.looseName?]
    by_cases call : kind = .call
    next =>
      subst call
      have parted : Scope.looseName? ((branch .call parens children).injectParts configs address) =
          Scope.looseName? (branch .call parens children) := by
        rcases children with _ | ⟨callee, _ | ⟨opening, _ | ⟨arguments, _ | ⟨closing, _ | ⟨next, rest⟩⟩⟩⟩⟩
        case cons.cons.cons.cons.nil =>
          simp [injectParts, inject.injectFrom, Scope.looseName?, ih callee (by simp)]
        all_goals simp [injectParts, inject.injectFrom, Scope.looseName?]
      -- A configuration is attached to the injected parts, and leaves the callee alone.
      rw [inject_eq, ← parted]
      cases configs.lookup address with
      | none => rfl
      | some config =>
        cases read : Call.ofNode? ((branch .call parens children).injectParts configs address) with
        | none => simp only [attached_of_not_call read]
        | some call =>
          obtain ⟨callee, opening, arguments, closing, shape⟩ := isA_call_of_ofNode? read
          have same : call.callee = callee := by
            rw [shape] at read
            exact (congrArg Call.callee (Option.some.inj read)).symm
          simp only [attached_of_call read]
          rw [shape, Call.toNode_attach, same]
          rfl
    obtain ⟨nodes, same⟩ := exists_inject_branch configs address kind parens children
    rw [same, looseName?_of_kind member call subscript, looseName?_of_kind member call subscript]

theorem valueOf?_of_kind {kind : Kind} (string : kind ≠ .string) (concatenation : kind ≠ .concatenation)
    (parens : Parens) (nodes : List Node) : Scope.valueOf? (branch kind parens nodes) = .ok none := by
  unfold Scope.valueOf?
  split
  next same => exact absurd (by injection same) string
  next same => exact absurd (by injection same) concatenation
  next => rfl

theorem valueOf?_inject : Scope.valueOf? (node.inject configs address) = Scope.valueOf? node := by
  induction node generalizing address with
  | leaf l => rfl
  | name parens id => rfl
  | branch kind parens children ih =>
    by_cases string : kind = .string
    next =>
      subst string
      rw [inject_of_not_call configs address (by decide)]
      rcases children with _ | ⟨part, _ | ⟨next, rest⟩⟩
      case cons.nil =>
        cases part with
        | leaf l => rfl
        | name _ _ => rfl
        | branch inner around parts =>
          obtain ⟨nodes, same⟩ := exists_inject_branch configs (address ++ [0]) inner around parts
          simp [inject.injectFrom, same, Scope.valueOf?]
      all_goals simp [inject.injectFrom, Scope.valueOf?]
    by_cases concatenation : kind = .concatenation
    next =>
      subst concatenation
      rw [inject_of_not_call configs address (by decide)]
      rcases children with _ | ⟨left, _ | ⟨gap, _ | ⟨right, _ | ⟨next, rest⟩⟩⟩⟩
      case cons.cons.cons.nil =>
        simp only [inject.injectFrom, Scope.valueOf?, isA_inject, ih left (by simp), ih right (by simp)]
      all_goals simp [inject.injectFrom, Scope.valueOf?]
    obtain ⟨nodes, same⟩ := exists_inject_branch configs address kind parens children
    rw [same, valueOf?_of_kind string concatenation, valueOf?_of_kind string concatenation]

theorem clause?_inject (wellFormed : node.wellFormed = true) :
    (node.inject configs address).clause? = node.clause? := by
  cases node with
  | leaf l => rfl
  | name parens id => rfl
  | branch kind parens children =>
    by_cases quiet : kind.isQuiet = true
    next =>
      rw [inject_of_isCallFree configs address
        (isCallFree_of_isQuiet wellFormed quiet (show (branch kind parens children).isA kind = true by simp [isA]))]
    next =>
      obtain ⟨nodes, same⟩ := exists_inject_branch configs address kind parens children
      have none (nodes : List Node) : (branch kind parens nodes).clause? = none :=
        Scope.clause?_of_kind (by rintro rfl; exact quiet rfl) (by rintro rfl; exact quiet rfl) parens nodes
      rw [same, none, none]

end Node

namespace Scope

section

variable (read : List Char → Step)

theorem stepOf_argument {node : Node} {argument : Argument} (found : Argument.ofNode? node = some argument) :
    stepOf read node = load ⟨argument.value, (stepOf read argument.value).adapted (child · 2)⟩ := by
  unfold Argument.ofNode? at found
  split at found
  next =>
    obtain rfl := Option.some.inj found
    rfl
  next => exact absurd found (by simp)

theorem valueOf?_plugins : valueOf? (.plain .string [.text "\"plugins\""]) =
    .ok (some (.text "plugins".toList)) := by
  rfl

variable {read}

/-- A node that says nothing where it is loaded. -/
def IsQuiet (read : List Char → Step) (node : Node) : Prop :=
  ∀ context survey, context.storing = false → stepOf read node context survey = .ok survey

theorem isQuiet_partsOf {nodes : List Node} (quiet : ∀ node ∈ nodes, IsQuiet read node) (index : Nat) :
    ∀ part ∈ stepOf.partsOf read index nodes, part.IsQuiet := by
  intro part mem context survey loads
  obtain ⟨i, node, here, rfl⟩ := mem_partsOf.1 mem
  exact quiet node (List.mem_of_getElem? here) _ survey loads

theorem isQuiet_name (parens : Parens) (id : Identifier) : IsQuiet read (.name parens id) := by
  intro context survey loads
  simp [stepOf, loads]

theorem isQuiet_each {kind : Kind} {nodes : List Node} (each : rule kind nodes.length = .each)
    (quiet : ∀ node ∈ nodes, IsQuiet read node) : IsQuiet read (.plain kind nodes) := by
  intro context survey _
  unfold plain stepOf
  rw [each]
  exact loadAll_quiet (isQuiet_partsOf quiet 0) context survey

theorem isQuiet_glue (leaves : List Leaf) : IsQuiet read (.glue leaves) := by
  refine isQuiet_each rfl fun node mem => ?_
  obtain ⟨leaf, -, rfl⟩ := List.mem_map.1 mem
  exact fun _ _ _ => rfl

theorem isQuiet_list {nodes : List Node} (quiet : ∀ node ∈ nodes, IsQuiet read node) :
    IsQuiet read (.plain .list nodes) := by
  intro context survey loads
  have steps : ∀ part ∈ stepOf.partsOf read 0 nodes, part.step context survey = .ok survey :=
    fun part mem => isQuiet_partsOf quiet 0 part mem context survey loads
  change Step.all ((stepOf.partsOf read 0 nodes).map Part.step) context survey = _
  generalize stepOf.partsOf read 0 nodes = parts at steps
  induction parts with
  | nil => rfl
  | cons part rest ih =>
    rw [List.map_cons, Step.all_cons]
    exact bind_eq_ok.2 ⟨survey, steps part (by simp), ih fun other mem => steps other (by simp [mem])⟩

theorem isQuiet_plugins (plugins : (read "plugins".toList).IsIdle) :
    IsQuiet read (.plain .string [.text "\"plugins\""]) := by
  intro context survey _
  change onString read (.plain .string [.text "\"plugins\""]) Step.skip context survey = _
  unfold onString
  split
  next =>
    rw [valueOf?_plugins]
    exact plugins _ survey rfl
  next => rfl

/-- A configuration says nothing, even where its key is taken for a hint. -/
theorem isQuiet_configOf (plugins : (read "plugins".toList).IsIdle) (bindings library : Identifier) :
    IsQuiet read (.configOf bindings library) := by
  have absent : IsQuiet read .absent := isQuiet_glue []
  have list : IsQuiet read (.plain .list [.glue [.text "["], .name {} bindings, .glue [.text ", "],
      .name {} library, .glue [.text "]"]]) :=
    isQuiet_list (by simp [isQuiet_glue, isQuiet_name])
  have entry : IsQuiet read (.plain .entry [.plain .string [.text "\"plugins\""], .glue [.text ": "],
      .plain .list [.glue [.text "["], .name {} bindings, .glue [.text ", "], .name {} library,
        .glue [.text "]"]], .absent]) :=
    isQuiet_each rfl (by simp [isQuiet_glue, list, isQuiet_plugins plugins, absent])
  exact isQuiet_each rfl (by simpa [isQuiet_glue] using isQuiet_each rfl (by simpa using entry))

end

section

variable {root : Node} {Allowed : String → Option Clause → Prop} {place : Address → Address}
  {Rel : Survey → Survey → Prop} (mirror : Mirror root Allowed place Rel)
  {configs : List (Address × Node)} {read readImage : List Char → Step}

/-- Every call has a configuration that says nothing, and the parts of a node move as the injection
moves them. -/
structure Follows (root : Node) (configs : List (Address × Node)) (place : Address → Address)
    (readImage : List Char → Step) : Prop where
  wellFormed : root.wellFormed = true
  quiet : ∀ {address config}, configs.lookup address = some config → IsQuiet readImage config
  moves : ∀ {above : Address} (i : Nat), above ≠ [] →
    place (above ++ [i]) = place above ++ [seat root configs above i]

variable (follows : Follows root configs place readImage)

include follows in
theorem image_of_child {above : Address} (inside : above ≠ []) {i : Nat} {child : Node}
    (step : Mirrored place Rel (some (above ++ [i])) (stepOf read child)
      (stepOf readImage (child.inject configs (above ++ [i])))) :
    Part.Image place Rel (some above)
      ⟨child, (stepOf read child).adapted (Scope.child · i)⟩
      ⟨child.inject configs (above ++ [i]), (stepOf readImage (child.inject configs (above ++ [i]))).adapted
        (Scope.child · (seat root configs above i))⟩ where
  isName := isName_inject configs _ child
  text := nodeText_inject configs _ child
  isAbsent := isAbsent_inject configs _ child
  step := .child (fun _ here => Option.some.inj here ▸ follows.moves i inside) step

/-- Parts have images in order, and after so many of them stand others that say nothing. -/
structure Part.Cut (place : Address → Address) (Rel : Survey → Survey → Prop) (address : Option Address)
    (parts images : List Part) (cut count : Nat) : Prop where
  length : images.length = parts.length + count
  bound : cut ≤ parts.length
  each : ∀ (j : Nat) part image, parts[j]? = some part →
    images[if j < cut then j else j + count]? = some image → part.Image place Rel address image
  others : ∀ (i : Nat) image, cut ≤ i → i < cut + count → images[i]? = some image → image.IsQuiet

namespace Part.Cut

variable {address : Option Address} {parts images : List Part} {cut count : Nat}

theorem tail {part image : Part}
    (split : Cut place Rel address (part :: parts) (image :: images) (cut + 1) count) :
    Cut place Rel address parts images cut count where
  length := by
    have length := split.length
    simp only [List.length_cons] at length
    omega
  bound := by simpa using split.bound
  each j part image here there := by
    refine split.each (j + 1) part image here ?_
    by_cases early : j < cut
    next => simpa [early] using there
    next => simpa [early, Nat.add_right_comm j 1] using there
  others i image late early there := split.others (i + 1) image (by omega) (by omega) there

theorem rest {image : Part} (split : Cut place Rel address parts (image :: images) 0 (count + 1)) :
    Cut place Rel address parts images 0 count where
  length := by
    have length := split.length
    simp only [List.length_cons] at length
    omega
  bound := Nat.zero_le _
  each j part image here there := split.each j part image here (by simpa [← Nat.add_assoc] using there)
  others i image _ early there := split.others (i + 1) image (by omega) (by omega) there

theorem arranged (split : Cut place Rel address parts images cut count) :
    Part.Images place Rel address Part.IsQuiet parts images := by
  induction cut generalizing parts images with
  | zero =>
    induction count generalizing images with
    | zero => exact (Part.Images.of_each split.length fun j part image => split.each j part image).mono False.elim
    | succ count ih =>
      cases images with
      | nil => exact absurd split.length (by simp)
      | cons image more => exact .other (split.others 0 image (by simp) (by simp) rfl) (ih split.rest)
  | succ cut ih =>
    cases parts with
    | nil => exact absurd split.bound (by simp)
    | cons part rest =>
      cases images with
      | nil => exact absurd split.length (by simp; omega)
      | cons image more => exact .cons (split.each 0 part image rfl rfl) (ih split.tail)

theorem onArguments (split : Cut place Rel address parts images cut count)
    (first : parts ≠ [] → cut ≠ 0) :
    Mirrored place Rel address (Scope.onArguments parts) (Scope.onArguments images) := by
  refine onArguments_mirrored split.arranged ?_
  rintro part rest rfl
  obtain ⟨cut, rfl⟩ := Nat.exists_eq_succ_of_ne_zero (first (by simp))
  cases images with
  | nil => exact absurd split.length (by simp; omega)
  | cons image more => exact ⟨image, more, rfl, split.each 0 part image rfl rfl, split.tail.arranged⟩

end Part.Cut

include follows in
/-- An argument that has been moved does what its value does. -/
theorem image_of_argument {above : Address} (inside : above ≠ []) {j : Nat}
    (still : Still root configs (above ++ [j])) {node : Node} {argument image : Argument}
    (found : Argument.ofNode? node = some argument)
    (same : image.value = argument.value.inject configs (above ++ [j] ++ [2]))
    (step : Mirrored place Rel (some (above ++ [j] ++ [2])) (stepOf read argument.value)
      (stepOf readImage (argument.value.inject configs (above ++ [j] ++ [2])))) :
    Part.Image place Rel (some above)
      ⟨node, (stepOf read node).adapted (Scope.child · j)⟩
      ⟨image.toNode, (stepOf readImage image.toNode).adapted
        (Scope.child · (seat root configs above j))⟩ := by
  have value := image_of_child follows (by simp) step
  rw [← same, still] at value
  obtain ⟨parens, children, rfl⟩ : ∃ parens children, node = .branch .argument parens children := by
    unfold Argument.ofNode? at found
    split at found
    next parens _ _ _ _ _ => exact ⟨parens, _, rfl⟩
    next => exact absurd found (by simp)
  have step : Mirrored place Rel (some (above ++ [j])) (stepOf read (.branch .argument parens children))
      (stepOf readImage image.toNode) := by
    rw [stepOf_argument read found, stepOf_argument readImage (Argument.ofNode?_toNode image)]
    exact value.load
  have moves (found : Address) (here : some above = some found) :
      place (found ++ [j]) = place found ++ [seat root configs above j] :=
    Option.some.inj here ▸ follows.moves j inside
  exact ⟨rfl, rfl, rfl, .child moves step⟩

omit follows in
theorem exists_of_partsOf_toNode {written : List Argument} {i : Nat} {image : Part}
    (there : (stepOf.partsOf readImage 0 (written.map Argument.toNode))[i]? = some image) :
    ∃ argument, written[i]? = some argument ∧
      image = ⟨argument.toNode, (stepOf readImage argument.toNode).adapted (child · (0 + i))⟩ := by
  rw [getElem?_partsOf, Option.map_eq_some_iff] at there
  obtain ⟨_, there, rfl⟩ := there
  rw [List.getElem?_map, Option.map_eq_some_iff] at there
  obtain ⟨argument, there, rfl⟩ := there
  exact ⟨argument, there, rfl⟩

omit follows in
/-- Placeholders and the configuration say nothing, so no argument says anything that a call is given. -/
theorem isQuiet_of_added {call : Call} {config : Node} (quiet : IsQuiet readImage config) {i : Nat}
    (late : call.firstAdded ≤ i) (early : i < call.firstAdded + call.addedCount) {image : Part}
    (there : (stepOf.partsOf readImage 0
      ((Argument.withCommas (call.attach config).arguments).map Argument.toNode))[i]? = some image) :
    image.IsQuiet := by
  obtain ⟨argument, seated, rfl⟩ := exists_of_partsOf_toNode there
  have silent : IsQuiet readImage argument.value := by
    obtain same | same := call.value_of_added config late early seated
    next => rwa [same]
    next => rw [same]; exact isQuiet_name _ _
  intro context survey loads
  change stepOf readImage argument.toNode _ survey = _
  rw [stepOf_argument readImage (Argument.ofNode?_toNode argument)]
  exact silent _ survey rfl

section

variable {above : Address} {around : Parens} {nodes : List Node}
  (stands : root.part? (above ++ [2]) = some (.branch .arguments around nodes))
  (each : ∀ node ∈ nodes, node.wellFormed = true ∧ node.isA .argument = true) {call : Call}
  (values : nodes.filterMap Argument.ofNode? = call.arguments)
  (seats : ∀ i, seat root configs (above ++ [2]) i = call.seat i) {config : Node}
  (inner : ∀ (i : Nat) argument, call.arguments[i]? = some argument →
    Mirrored place Rel (some (above ++ [2] ++ [i] ++ [2])) (stepOf read argument.value)
      (stepOf readImage (argument.value.inject configs (above ++ [2] ++ [i] ++ [2]))))

include follows stands each values seats inner

theorem image_at_seat {j : Nat} {part image : Part} (here : (stepOf.partsOf read 0 nodes)[j]? = some part)
    (there : (stepOf.partsOf readImage 0 ((Argument.withCommas
      ((call.injected configs above).attach config).arguments).map Argument.toNode))[call.seat j]? = some image) :
    part.Image place Rel (some (above ++ [2])) image := by
  obtain ⟨written, seated, rfl⟩ := exists_of_partsOf_toNode there
  rw [getElem?_partsOf, Option.map_eq_some_iff] at here
  obtain ⟨node, here, rfl⟩ := here
  obtain ⟨whole, is⟩ := each node (List.mem_of_getElem? here)
  obtain ⟨argument, found, -⟩ := Argument.exists_ofNode? [] [] whole is
  have own : call.arguments[j]? = some argument := by
    rw [← values, Argument.getElem?_filterMap each, here, Option.bind_some, found]
  have value := call.value_at_seat configs above config own
  rw [seated, Option.map_some, Option.some.injEq] at value
  have still : Still root configs (above ++ [2] ++ [j]) := still_of_not_call root configs stands rfl j
  have image := image_of_argument follows (by simp) still found value (inner j argument own)
  rw [seats] at image
  rwa [Nat.zero_add, Nat.zero_add]

theorem arguments_mirrored (quiet : IsQuiet readImage config) :
    Mirrored place Rel (some (above ++ [2])) (stepOf read (.branch .arguments around nodes))
      (stepOf readImage (.plain .arguments ((Argument.withCommas
        ((call.injected configs above).attach config).arguments).map Argument.toNode))) := by
  have length : (call.injected configs above).arguments.length = nodes.length := by
    simp [Call.injected, ← values, Argument.length_filterMap each]
  -- The parts are those of the call, cut in two by the added ones.
  have split : Part.Cut place Rel (some (above ++ [2])) (stepOf.partsOf read 0 nodes)
      (stepOf.partsOf readImage 0 ((Argument.withCommas
        ((call.injected configs above).attach config).arguments).map Argument.toNode))
      (call.injected configs above).firstAdded (call.injected configs above).addedCount := by
    constructor
    case length => rw [length_partsOf, length_partsOf, List.length_map, Call.length_attach, length]
    case bound => simpa [length] using (call.injected configs above).firstAdded_le
    case each =>
      intro j part image here there
      have within : j < (call.injected configs above).arguments.length := by
        rw [length, ← length_partsOf read 0 nodes]
        exact (List.getElem?_eq_some_iff.1 here).1
      rw [← Call.seat_eq _ within, Call.seat_injected] at there
      exact image_at_seat follows stands each values seats inner here there
    case others => exact fun i image late early there => isQuiet_of_added quiet late early there
  refine split.onArguments fun some => Call.firstAdded_ne_zero fun none => some ?_
  rw [none, List.length_nil] at length
  exact List.length_eq_zero_iff.1 (by rw [length_partsOf, ← length])

end

variable (reads : ∀ text, Mirrored place Rel none (read text) (readImage text))
  (speak : ∀ address node, root.part? address = some node → Speaks Allowed node) (blank : Allowed "" none)

include mirror follows reads speak blank

theorem stepOf_injectParts {above : Address} (inside : above ≠ []) {kind : Kind} {parens : Parens}
    {children : List Node} (stands : root.part? above = some (.branch kind parens children))
    (still : Still root configs above)
    (parted : (Node.branch kind parens children).inject configs above =
      (Node.branch kind parens children).injectParts configs above)
    (inner : ∀ (i : Nat) child, children[i]? = some child →
      Mirrored place Rel (some (above ++ [i])) (stepOf read child)
        (stepOf readImage (child.inject configs (above ++ [i])))) :
    Mirrored place Rel (some above) (stepOf read (.branch kind parens children))
      (stepOf readImage ((Node.branch kind parens children).inject configs above)) := by
  have loose := looseName?_inject configs above (.branch kind parens children)
  have clause := clause?_inject configs above (.branch kind parens children)
    (wellFormed_part? follows.wellFormed stands)
  have value := valueOf?_inject configs above (.branch kind parens children)
  rw [parted] at loose clause value ⊢
  refine stepOf_mirrored mirror (fun _ _ => reads _) (fun _ here => Option.some.inj here ▸ stands) (speak _ _ stands)
    (fun child mem => ?_) blank loose clause value (length_injectFrom configs above 0 children)
    (.of_each (by simp) fun i part image first second => ?_)
  next =>
    obtain ⟨i, here⟩ := List.getElem?_of_mem mem
    refine speak (above ++ [i]) child ?_
    rw [part?_concat, stands, Option.bind_some, children_branch, here]
  next =>
    rw [getElem?_partsOf, Option.map_eq_some_iff] at first second
    obtain ⟨child, here, rfl⟩ := first
    obtain ⟨_, there, rfl⟩ := second
    rw [getElem?_injectFrom, here, Option.map_some, Option.some.injEq] at there
    have image := image_of_child follows inside (inner i child here)
    rw [still] at image
    rwa [← there, Nat.zero_add]

omit reads blank in
theorem stepOf_given {above : Address} (inside : above ≠ []) {node config : Node} {call : Call}
    (stands : root.part? above = some node) (still : Still root configs above)
    (called : Call.ofNode? node = some call) (given : configs.lookup above = some config)
    (inner : ∀ path part, path ≠ [] → node.part? path = some part → Still root configs (above ++ path) →
      Mirrored place Rel (some (above ++ path)) (stepOf read part)
        (stepOf readImage (part.inject configs (above ++ path)))) :
    Mirrored place Rel (some above) (stepOf read node) (stepOf readImage (node.inject configs above)) := by
  have whole := wellFormed_part? follows.wellFormed stands
  have loose := looseName?_inject configs above node
  rw [inject_of_some configs above whole called given] at loose ⊢
  rw [Call.toNode_attach] at loose ⊢
  obtain ⟨opening, around, nodes, closing, rfl, -, -, -, -, values, -, each⟩ :=
    Call.parts_of_wellFormed whole called
  have callee := image_of_child follows inside (i := 0)
    (inner [0] call.callee (by simp) rfl (still_of_last root configs (by decide)))
  rw [still] at callee
  have below : root.part? (above ++ [2]) = some (.branch .arguments around nodes) := by
    rw [part?_concat, stands]
    rfl
  have arguments : Mirrored place Rel (some (above ++ [2])) (stepOf read (.branch .arguments around nodes))
      (stepOf readImage (.plain .arguments ((Argument.withCommas
        ((call.injected configs above).attach config).arguments).map Argument.toNode))) := by
    refine arguments_mirrored follows below each values (seat_of_given root configs stands called given)
      (fun i argument here => ?_) (follows.quiet given)
    rw [← values, Argument.getElem?_filterMap each, Option.bind_eq_some_iff] at here
    obtain ⟨written, here, found⟩ := here
    have inArguments : root.part? (above ++ [2] ++ [i]) = some written := by
      rw [part?_concat, below, Option.bind_some, children_branch, here]
    have deep : (branch .arguments around nodes).part? [i, 2] = some argument.value := by
      rw [part?_cons, children_branch, here, Option.bind_some, part?_cons,
        Argument.getElem?_value found, Option.bind_some, part?_nil]
    have last := still_of_not_call root configs inArguments
      (Call.ofNode?_of_isA (Argument.isA_of_ofNode? found)) 2
    simpa using inner [2, i, 2] argument.value (by simp) deep (by simpa using last)
  have moves (place_ : Address) (here : some above = some place_) :
      place (place_ ++ [2]) = place place_ ++ [2] := by
    obtain rfl := Option.some.inj here
    rw [follows.moves 2 inside, still]
  exact onCall_mirrored mirror (fun _ here => Option.some.inj here ▸ stands) rfl (speak _ _ stands) loose
    callee ⟨rfl, rfl, rfl, .child moves arguments⟩

/-- The step of a node is mirrored by the step of what the injection makes of it. -/
theorem stepOf_inject (node : Node) {above : Address} (inside : above ≠ [])
    (stands : root.part? above = some node) (still : Still root configs above) :
    Mirrored place Rel (some above) (stepOf read node) (stepOf readImage (node.inject configs above)) := by
  -- A configured call needs the steps of all that is below it, so the induction is on a tree and says it of
  -- every part.
  suffices all : ∀ path part, node.part? path = some part → ∀ above : Address, above ≠ [] →
      root.part? above = some part → Still root configs above →
        Mirrored place Rel (some above) (stepOf read part) (stepOf readImage (part.inject configs above)) from
    all [] node rfl above inside stands still
  clear inside stands still above
  induction node with
  | leaf l =>
    intro path part found above inside stands still
    cases path with
    | nil => exact Option.some.inj found ▸ .skip
    | cons i rest => exact absurd found (by simp [part?_cons, children])
  | name parens id =>
    intro path part found above inside stands still
    cases path with
    | nil =>
      obtain rfl := Option.some.inj found
      exact stepOf_name_mirrored mirror parens id (speak above _ stands).text
        fun _ here => Option.some.inj here ▸ stands
    | cons i rest => exact absurd found (by simp [part?_cons, children])
  | branch kind parens children ih =>
    intro path part found above inside stands still
    cases path with
    | cons i rest =>
      rw [part?_cons, Option.bind_eq_some_iff] at found
      obtain ⟨child, here, found⟩ := found
      exact ih child (List.mem_of_getElem? here) rest part found above inside stands still
    | nil =>
      obtain rfl := Option.some.inj found
      have inner (path : Address) (part : Node) (deeper : path ≠ [])
          (found : (Node.branch kind parens children).part? path = some part)
          (still : Still root configs (above ++ path)) :
          Mirrored place Rel (some (above ++ path)) (stepOf read part)
            (stepOf readImage (part.inject configs (above ++ path))) := by
        obtain ⟨i, rest, rfl⟩ := List.exists_cons_of_ne_nil deeper
        have stands : root.part? (above ++ i :: rest) = some part := by
          rw [part?_append, stands, Option.bind_some, found]
        rw [part?_cons, Option.bind_eq_some_iff] at found
        obtain ⟨child, here, found⟩ := found
        exact ih child (List.mem_of_getElem? here) rest part found _ (by simp) stands still
      obtain ⟨ungiven, same⟩ | ⟨call, config, called, given, -⟩ :=
        inject_cases configs above (wellFormed_part? follows.wellFormed stands)
      next =>
        refine stepOf_injectParts mirror follows reads speak blank inside stands still same fun i child here => ?_
        exact inner [i] child (by simp) (by rw [part?_cons, children_branch, here]; rfl)
          (still_of_ungiven root configs stands ungiven i)
      next => exact stepOf_given mirror follows speak inside stands still called given inner

end

end Scope

end Graft
