import Graft.Proofs.Grafting.Survey
import Graft.Proofs.Grafting.Written
import Graft.Proofs.Scope.Names
import Graft.Proofs.Scope.Settled
import Graft.Proofs.Scope.Traces

set_option autoImplicit false

/-!
Grafting again. A module whose hints are silent is surveyed after a grafting as it was before, but for
the new imports, so that no call is recognised that has not been recognised before.
-/
namespace Graft

open Node Scope

namespace Scope

theorem stepOf_module (read : List Char → Step) (module : Module) :
    stepOf read module.root = loadAll (stepOf.partsOf read 0 module.root.children) := rfl

theorem loadAll_inject {root : Node} {Allowed : String → Option Clause → Prop}
    {place : Address → Address} {Rel : Survey → Survey → Prop} (mirror : Mirror root Allowed place Rel)
    {configs : List (Address × Node)} {read readImage : List Char → Step}
    (follows : Follows root configs place readImage)
    (reads : ∀ text, Mirrored place Rel none (read text) (readImage text))
    (speak : ∀ address node, root.part? address = some node → Speaks Allowed node) (blank : Allowed "" none)
    (outer : Call.ofNode? root = none) {index next : Nat} {nodes : List Node}
    (stands : ∀ (i : Nat) node, nodes[i]? = some node → root.part? [index + i] = some node)
    (places : ∀ i, i < nodes.length → place [index + i] = place [] ++ [next + i]) :
    Mirrored place Rel (some []) (loadAll (stepOf.partsOf read index nodes))
      (loadAll (stepOf.partsOf readImage next (inject.injectFrom configs [] index nodes))) := by
  have images : Part.Images.Exact place Rel (some []) (stepOf.partsOf read index nodes)
      (stepOf.partsOf readImage next (inject.injectFrom configs [] index nodes)) := by
    refine .of_each (by simp) fun i part image first second => ?_
    rw [getElem?_partsOf, Option.map_eq_some_iff] at first second
    obtain ⟨node, here, rfl⟩ := first
    obtain ⟨_, there, rfl⟩ := second
    rw [getElem?_injectFrom, here, Option.map_some, Option.some.injEq] at there
    obtain rfl := there
    have still : Still root configs ([] ++ [index + i]) := still_of_not_call root configs rfl outer _
    have step := stepOf_inject mirror follows reads speak blank node (by simp) (stands i node here) still
    have moves (found : Address) (top : some [] = some found) :
        place (found ++ [index + i]) = place found ++ [next + i] :=
      Option.some.inj top ▸ places i (List.getElem?_eq_some_iff.1 here).1
    exact ⟨isName_inject _ _ _, nodeText_inject _ _ _, isAbsent_inject _ _ _, .child moves step⟩
  exact (images.mono False.elim).loadAll

section

variable {read : List Char → Step}

theorem stepOf_importLine {line : Node} {wanted : Export} {bound : String} (spells : ImportsAs line wanted bound)
    (valid : isIdentifier bound = true) (context : Context) (survey : Survey) :
    stepOf read line context survey =
      .ok ((survey.bind context.scope bound (some (wanted.clause bound))
        (context.address.map (· ++ [1]))).tick context.scope) := by
  obtain ⟨parts, ending, rfl, said⟩ := spells.shape
  have statement (context : Context) (survey : Survey) :
      stepOf read (.plain .importFrom parts) context survey =
        .ok ((survey.bind context.scope bound (some (wanted.clause bound)) context.address).tick
          context.scope) := by
    change onImport (.plain .importFrom parts) context survey = _
    rw [onImport_of_clause said, wanted.boundNames_clause valid]
    rfl
  change loadAll (stepOf.partsOf read 0 [.absent, .plain .importFrom parts, .glue ending]) context survey = _
  simp only [stepOf.partsOf, loadAll, List.map_cons, List.map_nil, Step.all_cons, Step.all_nil, Step.andThen_skip]
  have quiet (leaves : List Leaf) : IsQuiet read (.glue leaves) := isQuiet_glue leaves
  refine bind_eq_ok.2 ⟨survey, quiet [] (Scope.child (loading context) 0) survey rfl, ?_⟩
  refine bind_eq_ok.2 ⟨_, statement (Scope.child (loading context) 1) survey, ?_⟩
  exact quiet ending (Scope.child (loading context) 2) _ rfl

/-- The new imports bind their names in the scope of the module, and nothing else happens. -/
theorem loadAll_imports {names : List String} {lines : List Node}
    (spelled : ∀ line ∈ lines, ∃ wanted bound, ImportsAs line wanted bound ∧ bound ∈ names ∧
      isIdentifier bound = true)
    (index : Nat) (context : Context) (module : context.scope = 0) {survey : Survey}
    (grounded : survey.IsGrounded) :
    ∃ after, loadAll (stepOf.partsOf read index lines) context survey = .ok after ∧
      Imports names lines.length survey after ∧
        ∀ {place : Address → Address} {New : Option Address → Prop} {first : Survey},
          (∀ k < lines.length, New (context.address.map (· ++ [index + k, 1]))) →
            Traces names place New first survey → Traces names place New first after := by
  induction lines generalizing index survey with
  | nil => exact ⟨survey, rfl, .refl names survey, fun _ traces => traces⟩
  | cons line rest ih =>
    obtain ⟨wanted, bound, spells, mem, valid⟩ := spelled line (by simp)
    have ran := @stepOf_importLine read _ _ _ spells valid (Scope.child (loading context) index) survey
    rw [show (Scope.child (loading context) index).scope = 0 from module] at ran
    have first := Imports.single grounded mem (some (wanted.clause bound))
      ((Scope.child (loading context) index).address.map (· ++ [1]))
    -- The scope of the module stays grounded, so that the next import finds it as this one does.
    obtain ⟨after, done, more, traced⟩ :=
      ih (fun other among => spelled other (by simp [among])) (index + 1) (first.grounded grounded)
    refine ⟨after, ?_, ?_, fun stands traces => traced (fun k among => ?_) (traces.imported mem 0 _ ?_)⟩
    next =>
      simp only [stepOf.partsOf, loadAll, List.map_cons, Step.all_cons]
      exact bind_eq_ok.2 ⟨_, ran, done⟩
    next =>
      rw [List.length_cons, Nat.add_comm]
      exact first.trans more
    next =>
      have later := stands (k + 1) (Nat.succ_lt_succ among)
      rwa [Nat.add_assoc, Nat.add_comm 1]
    next =>
      have here := stands 0 (Nat.succ_pos _)
      cases address : context.address with
      | none => simpa [Scope.child, loading, address] using here
      | some above => simpa [Scope.child, loading, address] using here

end

theorem isSilentText_plugins : isSilentText 1 "plugins".toList = true := by
  decide +kernel

/-- Where the hints of a module are silent, reading them makes no difference. -/
theorem survey_of_silent {module : Module} {survey : Survey}
    (surveyed : stepOf onlySilent module.root ⟨0, some [], false, false, false, false, .none⟩ .initial =
      .ok survey) : Scope.survey module = .ok survey := by
  have nothing : Kept module.root fun _ => True :=
    ⟨fun _ _ _ _ _ _ => trivial, fun _ _ => trivial, fun _ _ _ => trivial, fun _ _ _ _ _ => trivial,
      fun _ _ _ => trivial⟩
  have mirrored (depth : Nat) : Mirrored id (Itself fun _ => True) (some [])
      (stepOf onlySilent module.root) (stepOf (readText depth) module.root) :=
    stepOf_itself trivial nothing.mirror module.root (fun _ _ _ _ _ => onlySilent_mirrored id _ depth _)
      (by simp) fun _ _ _ => ⟨trivial, fun _ _ _ _ => trivial, fun _ _ _ _ => trivial⟩
  obtain ⟨reached, ran, rfl, -⟩ := mirrored _ _ _ .initial survey rfl ⟨rfl, trivial⟩ surveyed
  exact ran

theorem onlySilent_itself {text : List Char} {context : Context} {before after : Survey}
    (done : onlySilent text context before = .ok after) : after = before := by
  unfold onlySilent at done
  split at done
  next => exact (Except.ok.inj done).symm
  next => exact absurd done (by simp)

/-- The scope of the module is settled after the leading statements. -/
theorem isSettled_of_statements {root : Node} {nodes : List Node}
    (each : ∀ node ∈ nodes, node.wellFormed = true)
    (stands : ∀ (i : Nat) node, nodes[i]? = some node → root.part? [i] = some node) {survey : Survey}
    (surveyed : loadAll (stepOf.partsOf onlySilent 0 nodes)
      ⟨0, some [], false, false, false, false, .none⟩ .initial = .ok survey) : survey.IsSettled := by
  have hushed (text : List Char) : Mirrored id (Itself Survey.IsSettled) none (onlySilent text) (onlySilent text) :=
    Step.keeps_iff.1 fun context before after _ settled done => onlySilent_itself done ▸ settled
  have keeps (text : List Char) : (onlySilent text).Keeps Survey.IsTimely none :=
    fun context before after _ timely done => onlySilent_itself done ▸ timely
  have settles : (loadAll (stepOf.partsOf onlySilent 0 nodes)).Settles (some []) := by
    refine .all fun step mem => ?_
    obtain ⟨part, among, rfl⟩ := List.mem_map.1 mem
    obtain ⟨i, node, here, rfl⟩ := mem_partsOf.1 among
    have settles : (stepOf onlySilent node).Settles (some [i]) :=
      stepOf_settles hushed keeps (each node (List.mem_of_getElem? here)) fun found place =>
        Option.some.inj place ▸ stands i node here
    intro context before after top module settled done
    refine settles (Scope.child (loading context) (0 + i)) before after ?_ module settled done
    simp [Scope.child, loading, top]
  refine settles _ .initial survey rfl rfl ?_ surveyed
  refine ⟨⟨⟨_, rfl, rfl⟩, fun binding mem => absurd mem (by simp [Survey.initial, Survey.frame]),
    fun site mem => absurd mem (by simp [Survey.initial])⟩,
    fun binding mem => absurd mem (by simp [Survey.initial, Survey.frame])⟩

end Scope

end Graft
