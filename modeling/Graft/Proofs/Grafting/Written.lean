import Graft.Proofs.Grafting.Place
import Graft.Proofs.Grafting.Result
import Graft.Proofs.Module

set_option autoImplicit false

/-!
The module that a grafting writes: the uses of a module and what they are given, and where the calls
stand between the new imports.
-/
namespace Graft

open Node

@[simp] theorem Node.inject_glued (configs : List (Address × Node)) (address : Address)
    (leaves : List Leaf) : (glue leaves).inject configs address = .glue leaves :=
  inject_glue configs address (Part.glue leaves).wellFormed rfl

namespace Module

theorem injectFrom_append (configs : List (Address × Node)) (address : Address) (index : Nat)
    (first rest : List Node) : inject.injectFrom configs address index (first ++ rest) =
      inject.injectFrom configs address index first ++
        inject.injectFrom configs address (index + first.length) rest := by
  induction first generalizing index with
  | nil => rfl
  | cons node first ih => simp [inject.injectFrom, ih, Nat.add_assoc, Nat.add_comm 1]

theorem take_injectFrom (configs : List (Address × Node)) (address : Address) (index n : Nat)
    (nodes : List Node) : (inject.injectFrom configs address index nodes).take n =
      inject.injectFrom configs address index (nodes.take n) := by
  induction nodes generalizing index n with
  | nil => simp [inject.injectFrom]
  | cons node rest ih => cases n <;> simp [inject.injectFrom, ih]

theorem drop_injectFrom (configs : List (Address × Node)) (address : Address) (index n : Nat)
    (nodes : List Node) : (inject.injectFrom configs address index nodes).drop n =
      inject.injectFrom configs address (index + n) (nodes.drop n) := by
  induction nodes generalizing index n with
  | nil => simp [inject.injectFrom]
  | cons node rest ih => cases n <;> simp [inject.injectFrom, ih, Nat.add_assoc, Nat.add_comm 1]

theorem root_inject (module : Module) (configs : List (Address × Node)) :
    (module.inject configs).root = module.root.inject configs [] := by
  simp [root, plain, inject_of_not_call configs [] (show Kind.module ≠ .call by decide), Module.inject,
    inject.injectFrom, injectFrom_append]

theorem children_inject (module : Module) (configs : List (Address × Node)) :
    (module.inject configs).root.children = inject.injectFrom configs [] 0 module.root.children := by
  rw [root_inject, root, plain, inject_of_not_call configs [] (by decide)]
  rfl

theorem leadingFrom_le (index : Nat) (statements : List Node) :
    leadingFrom index statements ≤ statements.length := by
  induction statements generalizing index with
  | nil => exact Nat.le_refl _
  | cons statement rest ih =>
    unfold leadingFrom
    split
    next => exact Nat.succ_le_succ (ih _)
    next => exact Nat.zero_le _

theorem leadingEnd_le (module : Module) : module.leadingEnd ≤ module.body.length :=
  leadingFrom_le 0 module.body

theorem insertLeading_nil (module : Module) : module.insertLeading [] = module := by
  simp [insertLeading]

theorem children_insertLeading (module : Module) (lines : List Node) :
    (module.insertLeading lines).root.children = module.root.children.take (module.leadingEnd + 1) ++
      (lines ++ module.root.children.drop (module.leadingEnd + 1)) := by
  have bound := module.leadingEnd_le
  have first : (module.body ++ [Node.glue module.footer]).take module.leadingEnd =
      module.body.take module.leadingEnd := List.take_append_of_le_length bound
  have last : (module.body ++ [Node.glue module.footer]).drop module.leadingEnd =
      module.body.drop module.leadingEnd ++ [Node.glue module.footer] := List.drop_append_of_le_length bound
  simp [root, plain, insertLeading, first, last]

/-- The address of a part after so many statements have been inserted. -/
def shifted (module : Module) (count : Nat) : Address → Address
  | [] => []
  | i :: rest => (if i ≤ module.leadingEnd then i else i + count) :: rest

theorem part?_insertLeading (module : Module) (lines : List Node) {address : Address}
    (inside : address ≠ []) : (module.insertLeading lines).root.part?
      (module.shifted lines.length address) = module.root.part? address := by
  obtain ⟨i, rest, rfl⟩ := List.exists_cons_of_ne_nil inside
  have bound := module.leadingEnd_le
  have before : (Node.glue module.header :: module.body.take module.leadingEnd).length =
      module.leadingEnd + 1 := by
    simp [bound]
  have whole : module.root.children = (Node.glue module.header :: module.body.take module.leadingEnd) ++
      (module.body.drop module.leadingEnd ++ [.glue module.footer]) := by
    rw [← List.append_assoc, List.cons_append, List.take_append_drop]
    rfl
  have written : (module.insertLeading lines).root.children =
      (Node.glue module.header :: module.body.take module.leadingEnd) ++
        (lines ++ (module.body.drop module.leadingEnd ++ [.glue module.footer])) := by
    simp [root, plain, insertLeading]
  rw [shifted, part?_cons, part?_cons, whole, written]
  generalize Node.glue module.header :: module.body.take module.leadingEnd = first at before
  generalize module.body.drop module.leadingEnd ++ [Node.glue module.footer] = last
  split
  next early =>
    rw [List.getElem?_append_left (by omega), List.getElem?_append_left (by omega)]
  next late =>
    have place : i + lines.length - first.length - lines.length = i - first.length := by omega
    rw [List.getElem?_append_right (by omega), List.getElem?_append_right (by omega), place,
      List.getElem?_append_right (by omega)]

theorem part?_inserted (module : Module) {lines : List Node} {k : Nat} (among : k < lines.length)
    (rest : Address) : (module.insertLeading lines).root.part? ((module.leadingEnd + 1 + k) :: rest) =
      (lines[k]?).bind (part? rest) := by
  have bound := module.leadingEnd_le
  have before : (module.root.children.take (module.leadingEnd + 1)).length = module.leadingEnd + 1 := by
    simp [root, plain]
    omega
  rw [part?_cons, children_insertLeading, List.getElem?_append_right (by omega), before,
    Nat.add_sub_cancel_left, List.getElem?_append_left among]

/-- What is inserted apart, every part of a written module was one of the module before. -/
theorem exists_shifted (module : Module) (count i : Nat) (rest : Address) :
    (∃ j, i :: rest = module.shifted count (j :: rest)) ∨
      ∃ k < count, i = module.leadingEnd + 1 + k := by
  by_cases early : i ≤ module.leadingEnd
  next => exact .inl ⟨i, by simp [shifted, early]⟩
  by_cases new : i - (module.leadingEnd + 1) < count
  next => exact .inr ⟨_, new, by omega⟩
  next =>
    have late : ¬ i - count ≤ module.leadingEnd := by omega
    refine .inl ⟨i - count, ?_⟩
    rw [shifted, if_neg late, Nat.sub_add_cancel (by omega)]

/-- The address that a call has after an injection and the insertion of so many statements. -/
def placed (module : Module) (configs : List (Address × Node)) (count : Nat) (address : Address) :
    Address :=
  (module.inject configs).shifted count (moved module.root configs [] address)

/-- Parts of the module itself move on by the new imports, if they stand after them. -/
theorem placed_single (module : Module) (configs : List (Address × Node)) (count i : Nat) :
    module.placed configs count [i] =
      [if i ≤ (module.inject configs).leadingEnd then i else i + count] := rfl

theorem placed_concat (module : Module) (configs : List (Address × Node)) (count : Nat) {above : Address}
    (inside : above ≠ []) (i : Nat) : module.placed configs count (above ++ [i]) =
      module.placed configs count above ++ [seat module.root configs above i] := by
  obtain ⟨j, rest, rfl⟩ := List.exists_cons_of_ne_nil inside
  rw [placed, moved_append]
  rfl

theorem part?_placed {module : Module} (wellFormed : module.wellFormed = true)
    (configs : List (Address × Node)) (lines : List Node) {address : Address} {node : Node}
    (found : module.root.part? address = some node) (is : node.isA .call = true) :
    ((module.inject configs).insertLeading lines).root.part?
      (module.placed configs lines.length address) = some (node.inject configs address) := by
  have inside : moved module.root configs [] address ≠ [] := by
    cases address with
    | nil => exact absurd (Option.some.inj found ▸ is) (by simp [root, plain, isA])
    | cons i rest => simp [moved]
  rw [placed, part?_insertLeading _ _ inside, root_inject]
  exact part?_inject (wellFormed_root wellFormed) is address [] _ rfl (fun _ => rfl) found

variable {settings : Settings} {file : Option String} {module : Module} {survey : Scope.Survey}

theorem mem_uses {use : Use} (mem : use ∈ module.uses settings file survey) :
    module.root.part? use.address = some use.node ∧ Call.ofNode? use.node = some use.call ∧
      Use.factoryOf? settings survey use.address use.call = some use.factory := by
  obtain ⟨located, walked, read⟩ := List.mem_filterMap.1 mem
  simp only [Use.ofNode?, Option.bind_eq_bind, Option.bind_eq_some_iff] at read
  obtain ⟨call, called, factory, recognised, made⟩ := read
  obtain rfl := Option.some.inj made
  exact ⟨mem_walk.1 walked, called, recognised⟩

theorem exists_mem_uses {address : Address} {node : Node} {call : Call} {factory : Export}
    (found : module.root.part? address = some node) (called : Call.ofNode? node = some call)
    (recognised : Use.factoryOf? settings survey address call = some factory) :
    ∃ use ∈ module.uses settings file survey, use.address = address ∧ use.call = call ∧
      use.factory = factory := by
  let position := module.positionOf address
  let use : Use := ⟨address, node, call, factory, ⟨file, some position.line, some position.column⟩⟩
  refine ⟨use, List.mem_filterMap.2 ⟨(address, node), mem_walk.2 found, ?_⟩, rfl, rfl, rfl⟩
  simp only [Use.ofNode?, called, Option.bind_eq_bind, Option.bind_some, recognised]
  rfl

end Module

namespace Work

theorem IsConfig.part {config : Node} (is : IsConfig config) : config.Part := by
  obtain ⟨bindings, library, rfl⟩ := is
  have key : (Node.plain .string [.text "\"plugins\""]).Part := .plain rfl (by simp)
  have plugins : (Node.plain .list [.glue [.text "["], .name {} bindings, .glue [.text ", "],
      .name {} library, .glue [.text "]"]]).Part := .plain rfl (by simp)
  have entry := @Part.plain .entry [_, .glue [.text ": "], _, .absent] rfl
    (by simpa using ⟨key, plugins⟩)
  have entries := @Part.plain .entries [_] rfl (by simpa using entry)
  exact .plain rfl (by simpa using entries)

namespace Configures

variable {settings : Settings} {known : List (Export × String)} {uses : List Use}
  {given : List (Address × Node)} (configures : Configures settings known uses given)

include configures

theorem of_lookup {address : Address} {config : Node} (found : given.lookup address = some config) :
    IsConfig config ∧ ∃ use ∈ uses, use.isSkipped = false ∧ use.address = address := by
  obtain ⟨before, after, place, -⟩ := List.lookup_eq_some_iff.1 found
  have mem : (address, config) ∈ given := by simp [place]
  have known : address ∈ given.map (·.1) := List.mem_map_of_mem mem
  rw [configures.addresses, List.mem_map] at known
  obtain ⟨use, kept, same⟩ := known
  rw [List.mem_filter, Bool.not_eq_true'] at kept
  obtain ⟨_, -, -, -, _, -, names⟩ := configures.named _ mem
  exact ⟨names.isConfig, use, kept.1, kept.2, same⟩

theorem names_of_lookup {address : Address} {config : Node}
    (found : given.lookup address = some config) :
    ∃ bindings library : Identifier, config = .configOf bindings library ∧
      known.lookup settings.bindings = some bindings.text ∧
        ∃ decision, known.lookup (Naming.library settings decision) = some library.text := by
  obtain ⟨before, after, place, -⟩ := List.lookup_eq_some_iff.1 found
  obtain ⟨_, -, -, -, classified, -, bindings, library, same, first, second⟩ :=
    configures.named (address, config) (by simp [place])
  exact ⟨bindings, library, same, first, classified.decision, second⟩

theorem lookup_of_mem {use : Use} (mem : use ∈ uses) (kept : use.isSkipped = false) :
    ∃ config, given.lookup use.address = some config := by
  have known : use.address ∈ given.map (·.1) := by
    rw [configures.addresses]
    exact List.mem_map_of_mem (List.mem_filter.2 ⟨mem, by simp [kept]⟩)
  cases found : given.lookup use.address with
  | some config => exact ⟨config, rfl⟩
  | none =>
    obtain ⟨entry, among, same⟩ := List.mem_map.1 known
    exact absurd (List.lookup_eq_none_iff.1 found entry among) (by simp [same])

end Configures

end Work

theorem Grafts.exists_importsAs {settings : Settings} {file : Option String} {tally : Tally}
    {module : Module} {survey : Scope.Survey} {given : List (Address × Node)}
    {added : List (Export × String)} {lines : List Node}
    (grafts : Grafts settings file tally module survey given added lines)
    {line : Node} (mem : line ∈ lines) : ∃ entry ∈ added, ImportsAs line entry.1 entry.2 := by
  have made : Except.ok line ∈ added.map fun entry => importLine entry.1 entry.2 :=
    grafts.lines ▸ List.mem_map_of_mem mem
  obtain ⟨entry, among, spelled⟩ := List.mem_map.1 made
  obtain ⟨importable, valid⟩ := grafts.importable entry among
  obtain ⟨written, made, imports⟩ := importLine_eq_ok importable valid
  exact ⟨entry, among, Except.ok.inj (spelled.symm.trans made) ▸ imports⟩

end Graft
