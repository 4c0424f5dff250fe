import Graft.Proofs.Grafting.Survey

set_option autoImplicit false

/-!
What a tree says to a survey when configurations have been put into it: what it has said without them.
-/
namespace Graft

open Node

namespace Scope

/-- What a node says to a survey is allowed, and its text, if it is a string, is fine. -/
structure Says (Allowed : String → Option Clause → Prop) (Fine : List Char → Prop) (node : Node) : Prop
    extends Speaks Allowed node where
  string : ∀ value, valueOf? node = .ok (some value) → Fine (literalText value)

/-- A tree in which everything is allowed that it binds or looks up, and all its texts are fine, but for
arguments that say nothing. Of an argument only the value says anything. -/
inductive Utters (Allowed : String → Option Clause → Prop) (Fine : List Char → Prop)
    (read : List Char → Step) : Node → Prop
  | muted {node : Node} {argument : Argument} (found : Argument.ofNode? node = some argument)
      (quiet : IsQuiet read argument.value) : Utters Allowed Fine read node
  | valued {node : Node} {argument : Argument} (found : Argument.ofNode? node = some argument)
      (value : Utters Allowed Fine read argument.value) : Utters Allowed Fine read node
  | spoken {node : Node} (alone : Says Allowed Fine node)
      (each : ∀ child ∈ node.children, Utters Allowed Fine read child) : Utters Allowed Fine read node

variable {Allowed : String → Option Clause → Prop} {Fine : List Char → Prop} {read : List Char → Step}
  (blank : Allowed "" none)

include blank

/-- Most nodes bind and look up nothing by themselves. -/
theorem says_of_kind {kind : Kind} (member : kind ≠ .member) (call : kind ≠ .call)
    (subscript : kind ≠ .subscript) (importing : kind ≠ .importing) (importFrom : kind ≠ .importFrom)
    (string : kind ≠ .string) (concatenation : kind ≠ .concatenation) (parens : Parens)
    (children : List Node) : Says Allowed Fine (.branch kind parens children) where
  text := blank
  lookup text named := by
    rw [looseName?_of_kind member call subscript] at named
    exact absurd named (by simp)
  bound clause said := by
    rw [clause?_of_kind importing importFrom] at said
    exact absurd said (by simp)
  string value valued := by
    rw [Node.valueOf?_of_kind string concatenation] at valued
    exact absurd valued (by simp)

theorem Utters.alone {node : Node} (utters : Utters Allowed Fine read node) : Says Allowed Fine node := by
  have alone {argument : Argument} (found : Argument.ofNode? node = some argument) :
      Says Allowed Fine node := by
    unfold Argument.ofNode? at found
    split at found
    next =>
      exact says_of_kind blank (by decide) (by decide) (by decide) (by decide) (by decide) (by decide)
        (by decide) _ _
    next => exact absurd found (by simp)
  cases utters with
  | spoken alone _ => exact alone
  | muted found _ => exact alone found
  | valued found _ => exact alone found

theorem stepOf_utters {root : Node} {Rel : Survey → Survey → Prop} (mirror : Mirror root Allowed id Rel)
    (reads : ∀ text, Fine text → Mirrored id Rel none (read text) (read text)) {node : Node}
    (utters : Utters Allowed Fine read node) {address : Option Address}
    (stands : ∀ found, address = some found → root.part? found = some node) :
    Mirrored id Rel address (stepOf read node) (stepOf read node) := by
  induction utters generalizing address with
  | @muted node argument found quiet =>
    rw [stepOf_argument read found]
    intro context first second after _ related done
    -- A muted argument is loaded for its value, which says nothing there.
    have still (context : Context) (survey : Survey) :
        load ⟨argument.value, (stepOf read argument.value).adapted (child · 2)⟩ context survey =
          .ok survey := quiet _ survey rfl
    rw [still] at done
    obtain rfl := Except.ok.inj done
    exact ⟨second, still _ _, related⟩
  | @valued node argument found value ih =>
    rw [stepOf_argument read found]
    exact fun context => Mirrored.child (fun _ _ => rfl)
      (ih (stands_child stands (Argument.getElem?_value found))) (loading context)
  | @spoken node alone each ih =>
    cases node with
    | leaf l => exact .skip
    | name parens id => exact stepOf_name_mirrored mirror parens id alone.text stands
    | branch kind parens children =>
      exact stepOf_mirrored mirror (fun value valued => reads _ (alone.string value valued)) stands
        alone.toSpeaks (fun child mem => ((each child mem).alone blank).toSpeaks) blank rfl rfl rfl rfl
        (.of_children (fun _ _ _ => rfl) fun i child here =>
          ih child (List.mem_of_getElem? here) (stands_child stands here))

theorem utters_glue (leaves : List Leaf) : Utters Allowed Fine read (.glue leaves) := by
  refine .spoken (says_of_kind blank (by decide) (by decide) (by decide) (by decide) (by decide)
    (by decide) (by decide) _ _) fun child mem => ?_
  obtain ⟨leaf, -, rfl⟩ := List.mem_map.1 mem
  exact .spoken ⟨⟨blank, fun _ named => absurd named (by simp [looseName?]),
    fun _ said => absurd said (by simp [Node.clause?])⟩,
    fun _ valued => absurd valued (by simp [valueOf?])⟩ (by simp [children])

/-- A value that an argument can have: it says what is allowed, or nothing. -/
def Fits (Allowed : String → Option Clause → Prop) (Fine : List Char → Prop) (read : List Char → Step) (value : Node) : Prop :=
  IsQuiet read value ∨ Utters Allowed Fine read value

omit blank in
theorem Utters.fits {node : Node} (utters : Utters Allowed Fine read node) {argument : Argument}
    (found : Argument.ofNode? node = some argument) : Fits Allowed Fine read argument.value := by
  cases utters with
  | muted other quiet => exact .inl (Option.some.inj (found.symm.trans other) ▸ quiet)
  | valued other value => exact .inr (Option.some.inj (found.symm.trans other) ▸ value)
  | spoken _ each => exact .inr (each _ (List.mem_of_getElem? (Argument.getElem?_value found)))

omit blank in
theorem utters_toNode {argument : Argument} (fits : Fits Allowed Fine read argument.value) :
    Utters Allowed Fine read argument.toNode :=
  fits.elim (.muted (Argument.ofNode?_toNode argument)) (.valued (Argument.ofNode?_toNode argument))

theorem utters_attach {call : Call} {config : Node}
    (alone : Says Allowed Fine (call.attach config).toNode)
    (callee : Utters Allowed Fine read call.callee)
    (values : ∀ argument ∈ call.arguments, Fits Allowed Fine read argument.value)
    (quiet : IsQuiet read config) : Utters Allowed Fine read (call.attach config).toNode := by
  have each := Call.forall_value_attach values (.inl (isQuiet_name {} Call.noneWord)) (.inl quiet)
  have arguments : Utters Allowed Fine read (.plain .arguments
      ((Argument.withCommas (call.attach config).arguments).map Argument.toNode)) := by
    refine .spoken (says_of_kind blank (by decide) (by decide) (by decide) (by decide) (by decide)
      (by decide) (by decide) _ _) fun child mem => ?_
    obtain ⟨argument, among, rfl⟩ := List.mem_map.1 mem
    exact utters_toNode (each argument among)
  refine .spoken alone ?_
  rw [Call.toNode_attach]
  simpa using ⟨callee, utters_glue blank _, arguments, utters_glue blank _⟩

/-- What a tree with configurations says is what the tree says. -/
theorem utters_inject {configs : List (Address × Node)}
    (quiet : ∀ address config, configs.lookup address = some config → IsQuiet read config) {node : Node}
    (wellFormed : node.wellFormed = true)
    (say : ∀ path part, node.part? path = some part → Says Allowed Fine part) (address : Address) :
    Utters Allowed Fine read (node.inject configs address) := by
  induction node generalizing address with
  | leaf l => exact .spoken (say [] _ rfl) (by simp [inject, children])
  | name parens id => exact .spoken (say [] _ rfl) (by simp [inject, children])
  | branch kind parens children ih =>
    have each := ((wellFormed_branch _ _ _).1 wellFormed).2
    have inner (i : Nat) (child : Node) (here : children[i]? = some child) :
        Utters Allowed Fine read (child.inject configs (address ++ [i])) := by
      have mem := List.mem_of_getElem? here
      refine ih child mem (each child mem) (fun path part found => say (i :: path) part ?_) _
      rw [part?_cons, children_branch, here, Option.bind_some, found]
    have parts : ∀ child ∈ (injectParts configs address (branch kind parens children)).children,
        Utters Allowed Fine read child := by
      intro child mem
      obtain ⟨i, child, here, rfl⟩ := (mem_injectFrom configs address).1 mem
      rw [Nat.zero_add]
      exact inner i child here
    -- All that is seen of the node itself survives the injection.
    have alone : Says Allowed Fine ((branch kind parens children).inject configs address) := by
      have itself := say [] _ rfl
      refine ⟨⟨?_, fun text named => itself.lookup text ?_, fun clause said => itself.bound clause ?_⟩,
        fun value valued => itself.string value ?_⟩
      next => rw [nodeText_inject]; exact itself.text
      next => rwa [looseName?_inject] at named
      next => rwa [clause?_inject _ _ _ wellFormed] at said
      next => rwa [valueOf?_inject] at valued
    obtain ⟨-, same⟩ | ⟨call, config, read, given, same⟩ := inject_cases configs address wellFormed
    next =>
      rw [same] at alone ⊢
      exact .spoken alone parts
    next =>
      rw [same] at alone ⊢
      obtain ⟨opening, around, nodes, closing, shape, -, -, -, -, values, -, arguments⟩ :=
        Call.parts_of_wellFormed wellFormed read
      injection shape with _ _ shape
      subst shape
      -- The arguments come from the injected list, which has been dealt with as the third part.
      have group := inner 2 _ rfl
      rw [inject_of_not_call configs _ (by decide)] at group
      refine utters_attach blank alone (inner 0 _ rfl) (fun argument mem => ?_) (quiet _ _ given)
      have written : (call.injected configs address).arguments =
          (inject.injectFrom configs (address ++ [2]) 0 nodes).filterMap Argument.ofNode? := by
        rw [Argument.filterMap_injectFrom configs _ arguments, values]
        simp [Call.injected]
      rw [written, List.mem_filterMap] at mem
      obtain ⟨child, among, found⟩ := mem
      cases group with
      | muted other _ => exact absurd other (by simp [Argument.ofNode?])
      | valued other _ => exact absurd other (by simp [Argument.ofNode?])
      | spoken _ each => exact (each child among).fits found

end Scope

end Graft
