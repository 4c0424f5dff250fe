import Graft.Proofs.Scope.Mirror

set_option autoImplicit false

/-!
Properties of surveys that their changes keep. Such a property holds of a survey throughout; in
particular every binding stands where the statement that makes it does, and none is lost.
-/
namespace Graft.Scope

/-- A property that the changes to a survey keep where only what is allowed is bound, and only calls are
seen. -/
structure KeptWhere (root : Node) (Allowed : String → Option Clause → Prop) (Holds : Survey → Prop) : Prop where
  bind : ∀ {survey}, Holds survey → ∀ scope {name clause origin}, Allowed name clause →
    Made root name clause origin → Holds (survey.bind scope name clause origin)
  tick : ∀ {survey}, Holds survey → ∀ scope, Holds (survey.tick scope)
  openScope : ∀ {survey}, Holds survey → ∀ region parent, Holds (survey.openScope region parent).2
  redirect : ∀ {survey}, Holds survey → ∀ {scope}, scope ≠ 0 → ∀ name target,
    Holds (survey.redirect scope name target)
  record : ∀ {survey}, Holds survey → ∀ {call node}, root.part? call = some node →
    node.isA .call = true → ∀ scope, Holds (survey.record call scope)

/-- A property that the changes to a survey keep. -/
structure Kept (root : Node) (Holds : Survey → Prop) : Prop where
  bind : ∀ {survey}, Holds survey → ∀ scope {name clause origin}, Made root name clause origin →
    Holds (survey.bind scope name clause origin)
  tick : ∀ {survey}, Holds survey → ∀ scope, Holds (survey.tick scope)
  openScope : ∀ {survey}, Holds survey → ∀ region parent, Holds (survey.openScope region parent).2
  redirect : ∀ {survey}, Holds survey → ∀ {scope}, scope ≠ 0 → ∀ name target,
    Holds (survey.redirect scope name target)
  record : ∀ {survey}, Holds survey → ∀ call scope, Holds (survey.record call scope)

/-- A step that keeps a property. -/
def Step.Keeps (Holds : Survey → Prop) (address : Option Address) (step : Step) : Prop :=
  ∀ context before after, context.address = address → Holds before →
    step context before = .ok after → Holds after

/-- A survey with a property, beside itself. -/
def Itself (Holds : Survey → Prop) (first second : Survey) : Prop := second = first ∧ Holds first

theorem Step.keeps_iff {Holds : Survey → Prop} {address : Option Address} {step : Step} :
    step.Keeps Holds address ↔ Mirrored id (Itself Holds) address step step := by
  have still (context : Context) : context.moved id = context := by
    unfold Context.moved
    rw [Option.map_id]
    rfl
  constructor
  next =>
    rintro keeps context first second after stands ⟨rfl, holds⟩ done
    exact ⟨after, by rw [still, done], rfl, keeps _ _ _ stands holds done⟩
  next =>
    intro mirrored context before after stands holds done
    obtain ⟨reached, -, -, holds⟩ := mirrored context before before after stands ⟨rfl, holds⟩ done
    exact holds

theorem KeptWhere.mirror {root : Node} {Allowed : String → Option Clause → Prop} {Holds : Survey → Prop}
    (kept : KeptWhere root Allowed Holds) : Mirror root Allowed id (Itself Holds) where
  parent related _ := by rw [related.1]
  length related := by rw [related.1]
  imported related _ _ _ := by rw [related.1]
  bind related scope name clause origin allowed made := by
    rw [Option.map_id, related.1]
    exact ⟨rfl, kept.bind related.2 scope allowed made⟩
  tick related scope := ⟨by rw [related.1], kept.tick related.2 scope⟩
  openScope related region parent := ⟨by rw [related.1], kept.openScope related.2 region parent⟩
  redirect related _ inner name target := ⟨by rw [related.1], kept.redirect related.2 inner name target⟩
  record related _ _ stands is scope := ⟨by rw [related.1]; rfl, kept.record related.2 stands is scope⟩

theorem Kept.keptWhere {root : Node} {Holds : Survey → Prop} (kept : Kept root Holds) :
    KeptWhere root (fun _ _ => True) Holds where
  bind holds scope _ _ _ _ made := kept.bind holds scope made
  tick := kept.tick
  openScope := kept.openScope
  redirect := kept.redirect
  record holds _ _ _ _ scope := kept.record holds _ scope

theorem Kept.mirror {root : Node} {Holds : Survey → Prop} (kept : Kept root Holds) :
    Mirror root (fun _ _ => True) id (Itself Holds) :=
  kept.keptWhere.mirror

theorem stands_child {root : Node} {address : Option Address} {node child : Node} {i : Nat}
    (stands : ∀ found, address = some found → root.part? found = some node)
    (here : node.children[i]? = some child) (found : Address)
    (place : address.map (· ++ [i]) = some found) : root.part? found = some child := by
  obtain ⟨above, at_, rfl⟩ := Option.map_eq_some_iff.1 place
  rw [Node.part?_concat, stands above at_, Option.bind_some, here]

theorem getElem?_partsOf (read : List Char → Step) (index : Nat) (nodes : List Node) (i : Nat) :
    (stepOf.partsOf read index nodes)[i]? = nodes[i]?.map fun node =>
      ⟨node, (stepOf read node).adapted (child · (index + i))⟩ := by
  induction nodes generalizing index i with
  | nil => simp [stepOf.partsOf]
  | cons node rest ih =>
    cases i with
    | zero => simp [stepOf.partsOf]
    | succ i => simp [stepOf.partsOf, ih, Nat.add_assoc, Nat.add_comm 1]

@[simp] theorem length_partsOf (read : List Char → Step) (index : Nat) (nodes : List Node) :
    (stepOf.partsOf read index nodes).length = nodes.length := by
  induction nodes generalizing index with
  | nil => rfl
  | cons node rest ih => simp [stepOf.partsOf, ih]

theorem partsOf_append (read : List Char → Step) (index : Nat) (first rest : List Node) :
    stepOf.partsOf read index (first ++ rest) =
      stepOf.partsOf read index first ++ stepOf.partsOf read (index + first.length) rest := by
  induction first generalizing index with
  | nil => rfl
  | cons node first ih => simp [stepOf.partsOf, ih, Nat.add_assoc, Nat.add_comm 1]

theorem loadAll_append (first rest : List Part) :
    loadAll (first ++ rest) = (loadAll first).andThen (loadAll rest) := by
  rw [loadAll, List.map_append, Step.all_append]
  rfl

theorem loadAll_split {read : List Char → Step} {nodes : List Node} {i : Nat} {node : Node} (here : nodes[i]? = some node)
    {context : Context} {survey after : Survey}
    (done : loadAll (stepOf.partsOf read 0 nodes) context survey = .ok after) :
    ∃ first second, loadAll (stepOf.partsOf read 0 (nodes.take i)) context survey = .ok first ∧
      stepOf read node (child (loading context) i) first = .ok second ∧
        loadAll (stepOf.partsOf read (i + 1) (nodes.drop (i + 1))) context second = .ok after := by
  obtain ⟨bound, rfl⟩ := List.getElem?_eq_some_iff.1 here
  have whole : nodes = nodes.take i ++ nodes[i] :: nodes.drop (i + 1) := by
    rw [List.getElem_cons_drop, List.take_append_drop]
  have length : (nodes.take i).length = i := by
    rw [List.length_take]
    omega
  rw [whole, partsOf_append, loadAll_append] at done
  obtain ⟨first, before, done⟩ := bind_eq_ok.1 done
  simp only [stepOf.partsOf, loadAll, List.map_cons, Step.all_cons, length, Nat.zero_add] at done
  obtain ⟨second, ran, later⟩ := bind_eq_ok.1 done
  exact ⟨first, second, before, ran, later⟩

theorem Part.Images.of_each {place : Address → Address} {Rel : Survey → Survey → Prop}
    {address : Option Address} {parts images : List Part} (length : images.length = parts.length)
    (each : ∀ (i : Nat) part image, parts[i]? = some part → images[i]? = some image →
      part.Image place Rel address image) :
    Part.Images.Exact place Rel address parts images := by
  induction parts generalizing images with
  | nil =>
    obtain rfl := List.length_eq_zero_iff.1 length
    exact .nil
  | cons part rest ih =>
    cases images with
    | nil => exact absurd length (by simp)
    | cons image more =>
      exact .cons (each 0 part image rfl rfl)
        (ih (by simpa using length) fun i => each (i + 1))

/-- Children that stay what they are have images if their steps mirror each other. -/
theorem Part.Images.of_children {place : Address → Address} {Rel : Survey → Survey → Prop}
    {address : Option Address} {read readImage : List Char → Step} {children : List Node}
    (moves : ∀ (i : Nat) found, address = some found → place (found ++ [i]) = place found ++ [i])
    (each : ∀ (i : Nat) child, children[i]? = some child →
      Mirrored place Rel (address.map (· ++ [i])) (stepOf read child) (stepOf readImage child)) :
    Part.Images.Exact place Rel address (stepOf.partsOf read 0 children)
      (stepOf.partsOf readImage 0 children) := by
  refine .of_each (by simp) fun i part image first second => ?_
  rw [getElem?_partsOf, Option.map_eq_some_iff] at first second
  obtain ⟨child, here, rfl⟩ := first
  obtain ⟨_, again, rfl⟩ := second
  obtain rfl := Option.some.inj (here.symm.trans again)
  rw [Nat.zero_add]
  exact ⟨rfl, rfl, rfl, .child (moves i) (each i child here)⟩

section

variable {root : Node} {Allowed : String → Option Clause → Prop} {place : Address → Address}
  {Rel : Survey → Survey → Prop} {read readImage : List Char → Step} (blank : Allowed "" none)

include blank

/-- The step of a node mirrors that of the same node at another place, if the texts of its strings do. -/
theorem stepOf_placed (mirror : Mirror root Allowed place Rel) (node : Node) {address : Option Address}
    (moves : ∀ found, address = some found → ∀ path i, place (found ++ path ++ [i]) = place (found ++ path) ++ [i])
    (reads : ∀ path part, node.part? path = some part → ReadsAlike place Rel part read readImage)
    (stands : ∀ found, address = some found → root.part? found = some node)
    (speak : ∀ path part, node.part? path = some part → Speaks Allowed part) :
    Mirrored place Rel address (stepOf read node) (stepOf readImage node) := by
  induction node generalizing address with
  | leaf l => exact .skip
  | name parens id => exact stepOf_name_mirrored mirror parens id (speak [] _ rfl).text stands
  | branch kind parens children ih =>
    have below (i : Nat) (child : Node) (here : children[i]? = some child) (path : Address) :
        (Node.branch kind parens children).part? (i :: path) = child.part? path := by
      rw [Node.part?_cons, Node.children_branch, here, Option.bind_some]
    have speaks (child : Node) (mem : child ∈ children) : Speaks Allowed child := by
      obtain ⟨i, here⟩ := List.getElem?_of_mem mem
      exact speak [i] child (below i child here [])
    refine stepOf_mirrored mirror (reads [] _ rfl) stands (speak [] _ rfl) speaks blank rfl rfl rfl rfl
      (.of_children (fun i found at_ => by simpa using moves found at_ [] i) fun i child here => ?_)
    refine ih child (List.mem_of_getElem? here) ?_
      (fun path part found => reads (i :: path) part ((below i child here path).trans found))
      (stands_child stands here) fun path part found =>
        speak (i :: path) part ((below i child here path).trans found)
    intro found at_ path j
    obtain ⟨above, same, rfl⟩ := Option.map_eq_some_iff.1 at_
    simpa using moves above same (i :: path) j

theorem stepOf_itself (mirror : Mirror root Allowed id Rel) (node : Node) {address : Option Address}
    (reads : ∀ path part, node.part? path = some part → ReadsAlike id Rel part read readImage)
    (stands : ∀ found, address = some found → root.part? found = some node)
    (speak : ∀ path part, node.part? path = some part → Speaks Allowed part) :
    Mirrored id Rel address (stepOf read node) (stepOf readImage node) :=
  stepOf_placed blank mirror node (fun _ _ _ _ => rfl) reads stands speak

end

/-- The step of a node that says only what is allowed keeps what the changes to a survey keep. -/
theorem stepOf_keepsWhere {root : Node} {Allowed : String → Option Clause → Prop} {Holds : Survey → Prop}
    (kept : KeptWhere root Allowed Holds) (blank : Allowed "" none) {read : List Char → Step} (node : Node)
    (reads : ∀ path part value, node.part? path = some part → valueOf? part = .ok (some value) →
      (read (literalText value)).Keeps Holds none)
    {address : Option Address} (stands : ∀ found, address = some found → root.part? found = some node)
    (speak : ∀ path part, node.part? path = some part → Speaks Allowed part) :
    (stepOf read node).Keeps Holds address :=
  Step.keeps_iff.2 (stepOf_itself blank kept.mirror node
    (fun path part found value valued => Step.keeps_iff.1 (reads path part value found valued)) stands speak)

theorem stepOf_keeps {root : Node} {Holds : Survey → Prop} (kept : Kept root Holds)
    {read : List Char → Step} (reads : ∀ text, (read text).Keeps Holds none) (node : Node)
    {address : Option Address}
    (stands : ∀ found, address = some found → root.part? found = some node) :
    (stepOf read node).Keeps Holds address :=
  stepOf_keepsWhere kept.keptWhere trivial node (fun _ _ _ _ _ => reads _) stands
    fun _ _ _ => ⟨trivial, fun _ _ _ _ => trivial, fun _ _ _ _ => trivial⟩

/-- What a node does with its parts keeps what the changes to a survey keep. -/
theorem Act.run_keeps {root : Node} {Holds : Survey → Prop} (kept : Kept root Holds)
    {read : List Char → Step} (reads : ∀ text, (read text).Keeps Holds none) {address : Option Address}
    {kind : Kind} {parens : Parens} {children : List Node}
    (stands : ∀ found, address = some found → root.part? found = some (.branch kind parens children))
    (unimporting : (Node.branch kind parens children).clause? = none) {act : Act}
    (plain : act.isPlain = true) : (act.run read (.branch kind parens children)
      (stepOf.partsOf read 0 children)).Keeps Holds address := by
  rw [Step.keeps_iff]
  exact Act.run_mirrored kept.mirror (fun _ _ => Step.keeps_iff.1 (reads _)) stands unimporting rfl
    (.of_children (fun _ _ _ => rfl) fun i child here =>
      Step.keeps_iff.1 (stepOf_keeps kept reads child (stands_child stands here)))
    (fun _ _ => ⟨trivial, fun _ _ _ _ => trivial, fun _ _ _ _ => trivial⟩) trivial plain

variable {root : Node} {Holds : Survey → Prop}

/-- What the modules that some texts spell keep, if the texts in their strings do, is kept by those texts. -/
theorem readText_keepsWhere (Reads : List Char → Prop)
    (spelled : ∀ (read : List Char → Step) {text : List Char} {module : Module}, Reads text →
      Module.read (String.ofList text) = .ok module → (∀ text, Reads text → (read text).Keeps Holds none) →
        (stepOf read module.root).Keeps Holds none)
    (fuel : Nat) {text : List Char} (reads : Reads text) : (readText fuel text).Keeps Holds none := by
  induction fuel generalizing text with
  | zero =>
    intro context before after _ holds done
    obtain rfl := Except.ok.inj done
    exact holds
  | succ fuel ih =>
    intro context before after stands holds done
    unfold readText at done
    split at done
    next module spells => exact spelled _ reads spells (fun _ => ih) context before after stands holds done
    next =>
      obtain rfl := Except.ok.inj done
      exact holds
    next => exact absurd done (by simp)

theorem readText_keeps (kept : Kept root Holds) (fuel : Nat) (text : List Char) :
    (readText fuel text).Keeps Holds none :=
  readText_keepsWhere (fun _ => True) (fun _ _ module _ _ reads =>
    stepOf_keeps kept (fun text => reads text trivial) module.root (by simp)) fuel trivial

/-- What holds at first, and is kept, holds of the survey of a module. -/
theorem survey_holds {module : Module} (kept : Kept module.root Holds) (first : Holds .initial)
    {survey : Survey} (surveyed : Scope.survey module = .ok survey) : Holds survey :=
  stepOf_keeps kept (readText_keeps kept _) module.root (by simp) _ _ _ rfl first surveyed

end Graft.Scope
