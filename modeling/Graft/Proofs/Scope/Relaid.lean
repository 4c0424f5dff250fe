import Graft.Proofs.Registry.Relaid
import Graft.Proofs.Scope.Depth

set_option autoImplicit false

/-!
Surveys of modules that differ only in the layout of the bodies of their `try` statements. The small
statements of a body take their steps one after the other, wherever they stand.
-/
namespace Graft

namespace Scope

/-- The step of a statement below the present place. -/
def loadAt (read : List Char → Step) (located : Located) : Step :=
  (stepOf read located.2).adapted fun context =>
    { loading context with address := context.address.map (· ++ located.1) }

theorem all_flatMap {A : Type} {steps : A → Step} {groups : A → List Step} {parts : List A}
    (each : ∀ part ∈ parts, steps part = Step.all (groups part)) :
    Step.all (parts.map steps) = Step.all (parts.flatMap groups) := by
  induction parts with
  | nil => rfl
  | cons part rest ih =>
    rw [List.map_cons, Step.all_cons, List.flatMap_cons, Step.all_append, each part (by simp),
      ih fun other mem => each other (by simp [mem])]

variable (read : List Char → Step)

theorem loadAll_partsOf (index : Nat) (nodes : List Node) : loadAll (stepOf.partsOf read index nodes) =
    Step.all ((Node.childrenFrom [] index nodes).map (loadAt read)) := by
  induction nodes generalizing index with
  | nil => rfl
  | cons node rest ih =>
    have later := ih (index + 1)
    simp only [loadAll] at later ⊢
    rw [stepOf.partsOf, Node.childrenFrom, List.map_cons, List.map_cons, Step.all_cons, Step.all_cons, later]
    rfl

theorem stepOf_each {kind : Kind} {parens : Parens} {nodes : List Node}
    (each : rule kind nodes.length = .each) : stepOf read (.branch kind parens nodes) =
      Step.all (((Node.branch kind parens nodes).childrenAt []).map (loadAt read)) := by
  rw [stepOf, each]
  exact loadAll_partsOf read 0 nodes

theorem stepOf_glue {node : Node} (wellFormed : node.wellFormed = true) (is : node.isA .glue = true) :
    stepOf read node = Step.skip := by
  obtain ⟨parens, nodes, rfl⟩ := Node.exists_branch is
  have leaves := Shape.hasRoles_of_fits ((Node.wellFormed_branch _ _ _).1 wellFormed).1
  have quiet : ∀ located ∈ (Node.branch .glue parens nodes).childrenAt [], loadAt read located = Step.all [] := by
    rintro ⟨place, node⟩ mem
    obtain ⟨i, -, here⟩ := Node.mem_childrenAt.1 mem
    have leaf := List.all_eq_true.1 leaves node (List.mem_of_getElem? here)
    cases node with
    | leaf l => rfl
    | name parens id => exact absurd leaf (by simp [Node.isLeaf])
    | branch kind parens nodes => exact absurd leaf (by simp [Node.isLeaf])
  rw [stepOf_each read rfl, all_flatMap quiet, List.flatMap_eq_nil_iff.2 fun _ _ => rfl]
  rfl

theorem wellFormed_childrenAt {address : Address} {node : Node} (wellFormed : node.wellFormed = true)
    {located : Located} (mem : located ∈ node.childrenAt address) : located.2.wellFormed = true := by
  obtain ⟨i, -, here⟩ := Node.mem_childrenAt.1 mem
  exact @Node.wellFormed_part? [i] _ _ wellFormed (by rw [Node.part?_cons, here]; rfl)

/-- What stands between the parts of a bundle is of no account. -/
theorem stepOf_solids {kind : Kind} {parens : Parens} {nodes : List Node}
    (each : rule kind nodes.length = .each) (wellFormed : (Node.branch kind parens nodes).wellFormed = true) :
    stepOf read (.branch kind parens nodes) =
      Step.all (((Node.branch kind parens nodes).solids []).map (loadAt read)) := by
  have single : ∀ located ∈ (Node.branch kind parens nodes).childrenAt [], loadAt read located =
      Step.all (if !located.2.isA .glue then [loadAt read located] else []) := by
    intro located mem
    cases is : located.2.isA .glue with
    | true => rw [loadAt, stepOf_glue read (wellFormed_childrenAt wellFormed mem) is]; rfl
    | false => simp
  rw [stepOf_each read each, all_flatMap single, Node.solids]
  refine congrArg Step.all ?_
  induction (Node.branch kind parens nodes).childrenAt [] with
  | nil => rfl
  | cons located rest ih =>
    rw [List.flatMap_cons, ih, List.filter_cons]
    split <;> simp

theorem adapted_all (adjust : Context → Context) (steps : List Step) :
    (Step.all steps).adapted adjust = Step.all (steps.map (Step.adapted adjust)) := by
  induction steps with
  | nil => rfl
  | cons step rest ih => rw [List.map_cons, Step.all_cons, Step.all_cons, ← ih]; rfl

theorem loadAt_line {place : Address} {line : Node} (is : line.isA .line = true)
    (wellFormed : line.wellFormed = true) :
    loadAt read (place, line) = Step.all ((line.solids place).map (loadAt read)) := by
  obtain ⟨parens, parts, rfl⟩ := Node.exists_branch is
  rw [loadAt, stepOf_solids read rfl wellFormed, adapted_all, Node.solids_eq place, List.map_map, List.map_map]
  refine congrArg Step.all (List.map_congr_left fun located _ => ?_)
  funext context
  simp [loadAt, Step.adapted, loading, Function.comp_def]

theorem stepOf_body {body : Node} (simple : body.isSimpleBody = true) (wellFormed : body.wellFormed = true) :
    stepOf read body = Step.all ((body.bodySmalls []).map (loadAt read)) := by
  rcases Node.isA_of_isSimpleBody simple with is | is
  · have full := (Bool.and_eq_true _ _ ▸ simple : _ ∧ _).2
    rw [Node.blockStatements_of_isA is, List.all_eq_true] at full
    obtain ⟨parens, parts, rfl⟩ := Node.exists_branch is
    -- Between the lines of a block stands only glue.
    have lines : ∀ located ∈ (Node.branch .block parens parts).childrenAt [], loadAt read located =
        Step.all (((if located.2.isA .line then located.2.solids located.1 else [])).map (loadAt read)) := by
      rintro ⟨place, line⟩ mem
      have wellFormed := wellFormed_childrenAt wellFormed mem
      cases glue : line.isA .glue with
      | true =>
        have other := Node.isA_of_isA glue (by decide : Kind.glue ≠ .line)
        rw [loadAt, stepOf_glue read wellFormed glue, other]
        rfl
      | false =>
        obtain ⟨i, -, here⟩ := Node.mem_childrenAt.1 mem
        have some := full line (List.mem_filter.2 ⟨List.mem_of_getElem? here, by simp [glue]⟩)
        have is : line.isA .line = true := by
          cases is : line.isA .line with
          | true => rfl
          | false => simp [Node.smalls_of_not_isA is] at some
        rw [loadAt_line read is wellFormed, if_pos is]
    rw [stepOf_each read rfl, all_flatMap lines, Node.bodySmalls, if_pos is, List.map_flatMap]
  · have other := Node.isA_of_isA is (by decide : Kind.suite ≠ .block)
    obtain ⟨parens, parts, rfl⟩ := Node.exists_branch is
    rw [stepOf_solids read rfl wellFormed, Node.bodySmalls, other, is]
    rfl

section

variable {place : Address → Address} {Rel : Survey → Survey → Prop} {address : Option Address}

theorem Mirrored.along {step image : Step} {path found : Address}
    (moves : ∀ above, address = some above → place (above ++ path) = place above ++ found)
    (inner : Mirrored place Rel (address.map (· ++ path)) step image) :
    Mirrored place Rel address
      (step.adapted fun context => { loading context with address := context.address.map (· ++ path) })
      (image.adapted fun context => { loading context with address := context.address.map (· ++ found) }) := by
  intro context first second after stands related done
  rw [Step.adapted] at done ⊢
  have below : ({ loading (context.moved place) with
      address := (context.moved place).address.map (· ++ found) } : Context) =
      ({ loading context with address := context.address.map (· ++ path) } : Context).moved place := by
    unfold Context.moved loading
    cases here : context.address with
    | none => rfl
    | some above => simp [moves above (stands.symm.trans here)]
  rw [below]
  exact inner _ first second after (by rw [stands]) related done

theorem Mirrored.all₂ {steps images : List Step}
    (paired : List.Forall₂ (Mirrored place Rel address) steps images) :
    Mirrored place Rel address (Step.all steps) (Step.all images) := by
  induction paired with
  | nil => exact .skip
  | cons head _ ih =>
    rw [Step.all_cons, Step.all_cons]
    exact head.andThen ih

end

/-- How deep the strings of a module may be read. -/
def depth (module : Module) : Nat := (renderLeaves module.layout module.leaves).length

theorem length_lt_depth {module : Module} {path : Address} {part : Node}
    (found : module.root.part? path = some part) {value : Literal.Value}
    (valued : valueOf? part = .ok (some value)) :
    literalText value = [] ∨ (literalText value).length < depth module := by
  have within := @shown_sublist .bare _ _ (Node.sublist_leaves found)
  have less := shown_bare_le module.lineEnd module.leaves
  rw [Module.leaves_root] at within
  refine (length_of_valueOf? valued).imp_right fun short => ?_
  rw [depth, ← String.length_toList, toList_renderLeaves]
  exact short.trans_le (within.trans less)

section

variable {first second : Module} {Rel : Survey → Survey → Prop}
  (mirror : Mirror first.root (fun _ _ => True) (first.relocate second) Rel)

include mirror

/-- A part that both modules have is surveyed alike, if all below it is moved with it. -/
theorem stepOf_shared {node : Node} {above there : Address} (stands : first.root.part? above = some node)
    (again : second.root.part? there = some node)
    (moves : ∀ path, first.relocate second (above ++ path) = there ++ path) :
    Mirrored (first.relocate second) Rel (some above) (stepOf (readText (depth first)) node)
      (stepOf (readText (depth second)) node) := by
  refine stepOf_placed trivial mirror node ?_ (fun path part found value valued => ?_)
    (fun found here => Option.some.inj here ▸ stands)
    fun _ _ _ => ⟨trivial, fun _ _ _ _ => trivial, fun _ _ _ _ => trivial⟩
  · intro found here path i
    obtain rfl := Option.some.inj here
    rw [List.append_assoc, moves, moves, List.append_assoc]
  · have inFirst : first.root.part? (above ++ path) = some part := by
      rw [Node.part?_append, stands, Option.bind_some, found]
    have inSecond : second.root.part? (there ++ path) = some part := by
      rw [Node.part?_append, again, Option.bind_some, found]
    rcases length_lt_depth inFirst valued with empty | short
    · rw [empty]
      exact .of_idle (readText_nil _) (readText_nil _)
    · rcases length_lt_depth inSecond valued with empty | less
      · rw [empty]
        exact .of_idle (readText_nil _) (readText_nil _)
      · exact readText_mirrored mirror short less

theorem loadAt_shared {node : Node} {above there path found : Address} (stands : first.root.part? (above ++ path) = some node)
    (again : second.root.part? (there ++ found) = some node) (spot : first.relocate second above = there)
    (moves : ∀ rest, first.relocate second (above ++ path ++ rest) = there ++ found ++ rest) :
    Mirrored (first.relocate second) Rel (some above) (loadAt (readText (depth first)) (path, node))
      (loadAt (readText (depth second)) (found, node)) := by
  refine .along (fun place is => ?_) (stepOf_shared mirror stands again moves)
  obtain rfl := Option.some.inj is
  simpa [spot] using moves []

/-- The steps of bodies with the same small statements mirror each other. -/
theorem stepOf_regrouped {i : Nat} {statement other body opposite : Node} (here : first.body[i]? = some statement)
    (there : second.body[i]? = some other) (regrouped : Node.Regrouped statement other body opposite)
    (wellFormed : body.wellFormed = true) (again : opposite.wellFormed = true)
    (stands : first.root.part? [i + 1, 2] = some body) (opposed : second.root.part? [i + 1, 2] = some opposite) :
    Mirrored (first.relocate second) Rel (some [i + 1, 2]) (stepOf (readText (depth first)) body)
      (stepOf (readText (depth second)) opposite) := by
  obtain ⟨_, _, _, _, _, -, -, simple⟩ := Node.exists_of_tryBody? regrouped.found
  obtain ⟨_, _, _, _, _, -, -, plain⟩ := Node.exists_of_tryBody? regrouped.again
  rw [stepOf_body _ simple wellFormed, stepOf_body _ plain again]
  refine .all₂ (List.forall₂_map_left_iff.2 (List.forall₂_map_right_iff.2 ?_))
  have length := congrArg List.length regrouped.smalls
  rw [List.length_map, List.length_map] at length
  refine forall₂_of_getElem? length fun k located image spot found => ?_
  obtain ⟨path, node⟩ := located
  obtain ⟨reached, own⟩ := image
  obtain rfl : node = own := by
    have same := congrArg (·[k]?) regrouped.smalls
    simpa [spot, found] using same
  -- The two bodies list the same statements, so each goes to the place of that number.
  have start := Module.getElem?_bodyPaths spot
  have target := Module.getElem?_bodyPaths found
  have top : first.relocate second [i + 1, 2] = [i + 1, 2] := rfl
  refine @loadAt_shared _ _ _ mirror _ _ [i + 1, 2] path reached ?_ ?_ top fun rest => ?_
  · rw [Node.part?_append, stands]
    exact Node.part?_of_mem_bodySmalls (List.mem_of_getElem? spot)
  · rw [Node.part?_append, opposed]
    exact Node.part?_of_mem_bodySmalls (List.mem_of_getElem? found)
  · have went : relocated body.bodyPaths opposite.bodyPaths (path ++ rest) = some (reached ++ rest) :=
      (Module.relocated_bodyPaths_iff _ _).2 ⟨k, path, reached, rest, start, target, rfl, rfl⟩
    have present := Node.ne_nil_of_mem_bodyPaths (List.mem_of_getElem? start)
    have moved := @Module.relocate_of_tryBody? first second i body opposite (by rw [here]; exact regrouped.found)
      (by rw [there]; exact regrouped.again) (path ++ rest) (by simp [present])
    rw [went] at moved
    simpa using moved

theorem loadAt_relaid {i : Nat} {statement other : Node} (here : first.body[i]? = some statement)
    (there : second.body[i]? = some other) (alike : statement.IsRelaid other)
    (wellFormed : statement.wellFormed = true) (again : other.wellFormed = true) :
    Mirrored (first.relocate second) Rel (some []) (loadAt (readText (depth first)) ([i + 1], statement))
      (loadAt (readText (depth second)) ([i + 1], other)) := by
  have top := Module.part?_statement here
  have opposed := Module.part?_statement there
  rcases alike.cases with ⟨none, rfl⟩ | ⟨body, opposite, regrouped⟩
  · exact loadAt_shared mirror top opposed rfl (Module.relocate_of_no_tryBody (by rw [here]; exact none))
  · refine .along (fun above is => by obtain rfl := Option.some.inj is; rfl) ?_
    obtain ⟨kind, parens, before, word, rest, is, rfl, rfl⟩ := regrouped.parts
    have each (parts : List Node) : rule kind parts.length = .each := by rcases is with rfl | rfl <;> rfl
    -- All of the statement but its body is the same, and stays.
    have shared (k : Nat) (node : Node) (differs : k ≠ 2) (mine : first.root.part? [i + 1, k] = some node)
        (yours : second.root.part? [i + 1, k] = some node) :
        Mirrored (first.relocate second) Rel (some [i + 1]) (loadAt (readText (depth first)) ([k], node))
          (loadAt (readText (depth second)) ([k], node)) :=
      loadAt_shared mirror mine yours rfl (Module.relocate_of_ne_two first second (i + 1) differs)
    have below (k : Nat) : first.root.part? [i + 1, k] = (before :: word :: body :: rest)[k]? := by
      rw [← List.singleton_append, Node.part?_concat, top]
      rfl
    have under (k : Nat) : second.root.part? [i + 1, k] = (before :: word :: opposite :: rest)[k]? := by
      rw [← List.singleton_append, Node.part?_concat, opposed]
      rfl
    rw [stepOf_each _ (each _), stepOf_each _ (each _)]
    refine .all₂ (List.forall₂_map_left_iff.2 (List.forall₂_map_right_iff.2 ?_))
    refine .cons (shared 0 before (by decide) (below 0) (under 0))
      (.cons (shared 1 word (by decide) (below 1) (under 1)) (.cons ?_ ?_))
    · refine .along (fun above is => by obtain rfl := Option.some.inj is; rfl) ?_
      have inside := ((Node.wellFormed_branch _ _ _).1 wellFormed).2 body (by simp)
      have within := ((Node.wellFormed_branch _ _ _).1 again).2 opposite (by simp)
      exact stepOf_regrouped mirror here there regrouped inside within (below 2) (under 2)
    · refine List.forall₂_same.2 fun located mem => ?_
      obtain ⟨j, place, found⟩ := Node.mem_childrenFrom.1 mem
      obtain ⟨path, node⟩ := located
      obtain rfl : path = [2 + 1 + j] := place
      refine shared _ node (by omega) ?_ ?_
      · rw [below, Nat.add_comm]
        exact found
      · rw [under, Nat.add_comm]
        exact found

/-- The surveys of modules that are laid out otherwise mirror each other. -/
theorem stepOf_root_relaid (relaid : first.IsRelaid second) (wellFormed : first.wellFormed = true)
    (again : second.wellFormed = true) :
    Mirrored (first.relocate second) Rel (some []) (stepOf (readText (depth first)) first.root)
      (stepOf (readText (depth second)) second.root) := by
  -- The header and the footer of a module may differ, but say nothing.
  have glued (leaves : List Leaf) (read : List Char → Step) (place : Address) :
      loadAt read (place, .glue leaves) = Step.skip := by
    have whole : (Node.glue leaves).wellFormed = true := by
      refine (Node.wellFormed_branch _ _ _).2 ⟨?_, ?_⟩
      · simp [Shape.fits, Shape.hasRoles, Kind.isStatement, Node.isStatement, Node.isLeaf]
      · simp [Node.wellFormed]
    rw [loadAt, stepOf_glue read whole rfl]
    rfl
  have statement (module : Module) (read : List Char → Step) : stepOf read module.root =
      Step.all ((([0], Node.glue module.header) :: module.statementsAt ++
        [([module.body.length + 1], Node.glue module.footer)]).map (loadAt read)) := by
    rw [Module.root, Node.plain, stepOf_each read rfl]
    simp [Node.childrenAt, Node.childrenFrom, Node.childrenFrom_append, Module.statementsAt, Nat.add_comm]
  rw [statement, statement]
  refine .all₂ (List.forall₂_map_left_iff.2 (List.forall₂_map_right_iff.2 ?_))
  rw [List.cons_append, List.cons_append]
  refine .cons ?_ (List.rel_append ?_ (.cons ?_ .nil))
  · rw [glued, glued]
    exact .skip
  · have length : first.statementsAt.length = second.statementsAt.length := by
      have count (module : Module) : module.statementsAt.length = module.body.length := by
        simpa [Module.statementsAt] using congrArg List.length (Node.map_snd_childrenFrom [] 1 module.body)
      rw [count, count, relaid.length_eq]
    refine forall₂_of_getElem? length fun i located image here there => ?_
    rw [Module.getElem?_statementsAt, Option.map_eq_some_iff] at here there
    obtain ⟨mine, here, rfl⟩ := here
    obtain ⟨yours, there, rfl⟩ := there
    obtain ⟨other, found, alike⟩ := relaid.getElem? here
    obtain rfl := Option.some.inj (found.symm.trans there)
    have inFirst := Node.wellFormed_part? (Module.wellFormed_root wellFormed) (Module.part?_statement here)
    have inSecond := Node.wellFormed_part? (Module.wellFormed_root again) (Module.part?_statement there)
    exact loadAt_relaid mirror here there alike inFirst inSecond
  · rw [glued, glued]
    exact .skip

end

end Scope

end Graft
