import Graft.Proofs.Outcome
import Graft.Proofs.Tree.Address
import Graft.Scope.Survey

set_option autoImplicit false

/-!
Two surveys side by side. A relation between surveys that the single changes to a survey keep is kept
by the steps of two trees that look alike to the survey, whatever the rules of their kinds are.
-/
namespace Graft

/-- The names that an import binds. -/
def Clause.boundNames (clause : Clause) : List String :=
  clause.names.flatMap fun (name, bound) =>
    match bound with
    | some bound => [bound]
    | none => Scope.prefixes name

namespace Scope

/-- A binding stands where the statement that makes it does. -/
def Made (root : Node) (name : String) (clause : Option Clause) (origin : Option Address) : Prop :=
  ∀ address, origin = some address → ∃ node, root.part? address = some node ∧ node.clause? = clause ∧
    ∀ found, clause = some found → name ∈ found.boundNames

theorem made_of_plain {root node : Node} {address : Option Address} (name : String)
    (stands : ∀ found, address = some found → root.part? found = some node)
    (plain : node.clause? = none) : Made root name none address :=
  fun found place => ⟨node, stands found place, plain, fun _ none => absurd none (by simp)⟩

/-- The context of an image. -/
def Context.moved (place : Address → Address) (context : Context) : Context :=
  { context with address := context.address.map place }

/-- A relation between surveys that their changes keep. `place` is where the image of a part stands;
only what is allowed is bound, or looked up. -/
structure Mirror (root : Node) (Allowed : String → Option Clause → Prop) (place : Address → Address)
    (Rel : Survey → Survey → Prop) : Prop where
  parent : ∀ {first second}, Rel first second → ∀ scope,
    (second.frame scope).parent = (first.frame scope).parent
  length : ∀ {first second}, Rel first second → second.frames.length = first.frames.length
  imported : ∀ {first second}, Rel first second → ∀ context {text},
    (∀ part ∈ prefixes text, Allowed part none) →
      importedAt second context text = importedAt first context text
  bind : ∀ {first second}, Rel first second → ∀ scope {name clause origin}, Allowed name clause →
    Made root name clause origin →
      Rel (first.bind scope name clause origin) (second.bind scope name clause (origin.map place))
  tick : ∀ {first second}, Rel first second → ∀ scope, Rel (first.tick scope) (second.tick scope)
  openScope : ∀ {first second}, Rel first second → ∀ region parent,
    Rel (first.openScope region parent).2 (second.openScope region parent).2
  redirect : ∀ {first second}, Rel first second → ∀ {scope}, scope ≠ 0 → ∀ name target,
    Rel (first.redirect scope name target) (second.redirect scope name target)
  record : ∀ {first second}, Rel first second → ∀ {call node}, root.part? call = some node →
    node.isA .call = true → ∀ scope, Rel (first.record call scope) (second.record (place call) scope)

namespace Step

theorem andThen_assoc (first second third : Step) :
    (first.andThen second).andThen third = first.andThen (second.andThen third) := by
  funext context survey
  unfold andThen
  cases first context survey <;> rfl

theorem foldl_andThen (first : Step) (steps : List Step) :
    steps.foldl andThen first = first.andThen (all steps) := by
  induction steps generalizing first with
  | nil =>
    funext context survey
    simp only [List.foldl_nil, andThen, all]
    cases first context survey <;> rfl
  | cons step rest ih =>
    have once : all (step :: rest) = step.andThen (all rest) := ih step
    rw [List.foldl_cons, ih, once, andThen_assoc]

@[simp] theorem all_nil : all [] = skip := rfl

@[simp] theorem all_cons (step : Step) (rest : List Step) :
    all (step :: rest) = step.andThen (all rest) :=
  foldl_andThen step rest

theorem all_append (steps rest : List Step) : all (steps ++ rest) = (all steps).andThen (all rest) := by
  unfold all
  rw [List.foldl_append, foldl_andThen]
  rfl

@[simp] theorem andThen_skip (step : Step) : step.andThen skip = step := by
  funext context survey
  unfold andThen
  cases step context survey <;> rfl

end Step

theorem onImport_of_clause {node : Node} {clause : Clause} (said : node.clause? = some clause) :
    onImport node =
      Step.all (clause.boundNames.map (fun name => Step.bind name (some clause)) ++ [Step.tick]) := by
  unfold onImport
  simp only [said]
  rw [Step.all_append, Step.all_append]
  refine congrArg (Step.andThen · _) ?_
  unfold Clause.boundNames
  induction clause.names with
  | nil => rfl
  | cons entry rest ih =>
    obtain ⟨name, bound⟩ := entry
    rw [List.map_cons, Step.all_cons, List.flatMap_cons, List.map_append, Step.all_append, ← ih]
    refine congrArg (Step.andThen · _) ?_
    cases bound with
    | none => rfl
    | some bound => exact (Step.andThen_skip _).symm

/-- The second step follows the first wherever that leads. -/
def Mirrored (place : Address → Address) (Rel : Survey → Survey → Prop) (address : Option Address)
    (step image : Step) : Prop :=
  ∀ context first second after, context.address = address → Rel first second →
    step context first = .ok after →
      ∃ reached, image (context.moved place) second = .ok reached ∧ Rel after reached

namespace Mirrored

variable {root : Node} {Allowed : String → Option Clause → Prop} {place : Address → Address}
  {Rel : Survey → Survey → Prop} {address : Option Address}

theorem skip : Mirrored place Rel address Step.skip Step.skip := by
  intro context first second after at_ related done
  obtain rfl := Except.ok.inj done
  exact ⟨second, rfl, related⟩

theorem andThen {step image next nextImage : Step} (head : Mirrored place Rel address step image)
    (tail : Mirrored place Rel address next nextImage) :
    Mirrored place Rel address (step.andThen next) (image.andThen nextImage) := by
  intro context first second after stands related done
  obtain ⟨middle, ran, done⟩ := bind_eq_ok.1 done
  obtain ⟨reached, followed, related⟩ := head context first second middle stands related ran
  obtain ⟨last, follows, related⟩ := tail context middle reached after stands related done
  exact ⟨last, bind_eq_ok.2 ⟨reached, followed, follows⟩, related⟩

theorem all {steps : List Step} (each : ∀ step ∈ steps, Mirrored place Rel address step step) :
    Mirrored place Rel address (Step.all steps) (Step.all steps) := by
  induction steps with
  | nil => exact .skip
  | cons step rest ih =>
    rw [Step.all_cons]
    exact (each step (by simp)).andThen (ih fun other mem => each other (by simp [mem]))

theorem adapted {step image : Step} {adjust : Context → Context}
    (kept : ∀ context, (adjust context).address = context.address)
    (moves : ∀ context : Context, adjust (context.moved place) = (adjust context).moved place)
    (head : Mirrored place Rel address step image) :
    Mirrored place Rel address (step.adapted adjust) (image.adapted adjust) := by
  intro context first second after stands related done
  rw [Step.adapted, moves]
  exact head (adjust context) first second after ((kept context).trans stands) related done

theorem tick (mirror : Mirror root Allowed place Rel) :
    Mirrored place Rel address Step.tick Step.tick := by
  intro context first second after _ related done
  obtain rfl := Except.ok.inj done
  exact ⟨_, rfl, mirror.tick related _⟩

theorem bind (mirror : Mirror root Allowed place Rel) {name : String} {clause : Option Clause}
    (allowed : Allowed name clause) (made : Made root name clause address) :
    Mirrored place Rel address (Step.bind name clause) (Step.bind name clause) := by
  intro context first second after stands related done
  obtain rfl := Except.ok.inj done
  exact ⟨_, rfl, mirror.bind related _ allowed (stands ▸ made)⟩

theorem within (mirror : Mirror root Allowed place Rel) (region : Region) {step image : Step}
    (inner : Mirrored place Rel address step image) :
    Mirrored place Rel address (Step.within region step) (Step.within region image) := by
  intro context first second after stands related done
  have opened := mirror.openScope related region context.scope
  have same : (second.openScope region context.scope).1 = (first.openScope region context.scope).1 :=
    mirror.length related
  obtain ⟨reached, follows, related⟩ :=
    inner (inScope context (first.openScope region context.scope).1) _ _ after stands opened done
  refine ⟨reached, ?_, related⟩
  rw [← follows]
  exact congrArg (fun scope => image (inScope (context.moved place) scope) _) same

theorem outside (mirror : Mirror root Allowed place Rel) {step image : Step}
    (inner : Mirrored place Rel address step image) :
    Mirrored place Rel address (Step.outside step) (Step.outside image) := by
  intro context first second after stands related done
  obtain ⟨reached, follows, ended⟩ :=
    inner (inScope context (first.frame context.scope).parent) _ _ after stands related done
  refine ⟨reached, ?_, ended⟩
  rw [← follows]
  exact congrArg (fun scope => image (inScope (context.moved place) scope) _)
    (mirror.parent related context.scope)

end Mirrored

section

variable {place : Address → Address} {Rel : Survey → Survey → Prop} {address : Option Address}

/-- A part that changes nothing when it is loaded. -/
def Part.IsQuiet (part : Part) : Prop :=
  ∀ context survey, context.storing = false → part.step context survey = .ok survey

/-- A part and what stands for it in the other tree. -/
structure Part.Image (place : Address → Address) (Rel : Survey → Survey → Prop)
    (address : Option Address) (part image : Part) : Prop where
  isName : image.node.isName = part.node.isName
  text : nodeText image.node = nodeText part.node
  isAbsent : image.node.isAbsent = part.node.isAbsent
  step : Mirrored place Rel address part.step image.step

/-- The images of some parts, with other parts between them. -/
inductive Part.Images (place : Address → Address) (Rel : Survey → Survey → Prop)
    (address : Option Address) (Other : Part → Prop) : List Part → List Part → Prop where
  | nil : Images place Rel address Other [] []
  | cons {part image parts images} : part.Image place Rel address image →
      Images place Rel address Other parts images →
        Images place Rel address Other (part :: parts) (image :: images)
  | other {image parts images} : Other image → Images place Rel address Other parts images →
      Images place Rel address Other parts (image :: images)

namespace Part.Images

variable {parts images : List Part}

/-- Every part has its image at its own place. -/
abbrev Exact (place : Address → Address) (Rel : Survey → Survey → Prop) (address : Option Address) :=
  Images place Rel address fun _ => False

theorem partAt (exact_ : Exact place Rel address parts images) (index : Nat) :
    (partAt parts index).Image place Rel address (partAt images index) := by
  induction exact_ generalizing index with
  | nil => exact ⟨rfl, rfl, rfl, .skip⟩
  | cons head _ ih =>
    cases index with
    | zero => exact head
    | succ index => exact ih index
  | other none => exact none.elim

theorem declaredNames (exact_ : Exact place Rel address parts images) :
    declaredNames images = declaredNames parts := by
  unfold Scope.declaredNames
  induction exact_ with
  | nil => rfl
  | cons head _ ih => rw [List.filterMap_cons, List.filterMap_cons, ih, head.isName, head.text]
  | other none => exact none.elim

theorem all {Other : Part → Prop} (arranged : Images place Rel address Other parts images)
    {stepOf : Part → Step} (each : ∀ {part image : Part}, part.Image place Rel address image →
      Mirrored place Rel address (stepOf part) (stepOf image))
    (idle : ∀ {image : Part}, Other image → ∀ context survey,
      stepOf image context survey = .ok survey) :
    Mirrored place Rel address (Step.all (parts.map stepOf)) (Step.all (images.map stepOf)) := by
  induction arranged with
  | nil => exact .skip
  | cons part _ ih =>
    simp only [List.map_cons, Step.all_cons]
    exact (each part).andThen ih
  | other quiet _ ih =>
    simp only [List.map_cons, Step.all_cons]
    intro context first second after stands related done
    obtain ⟨reached, follows, related⟩ := ih context first second after stands related done
    exact ⟨reached, bind_eq_ok.2 ⟨second, idle quiet _ _, follows⟩, related⟩

end Part.Images

theorem Part.Image.load {part image : Part} (alike : part.Image place Rel address image) :
    Mirrored place Rel address (Scope.load part) (Scope.load image) :=
  alike.step.adapted (fun _ => rfl) fun _ => rfl

theorem Part.Image.store {part image : Part} (alike : part.Image place Rel address image) :
    Mirrored place Rel address (Scope.store part) (Scope.store image) :=
  alike.step.adapted (fun _ => rfl) fun _ => rfl

theorem Part.Images.loadAll {parts images : List Part}
    (arranged : Images place Rel address Part.IsQuiet parts images) :
    Mirrored place Rel address (Scope.loadAll parts) (Scope.loadAll images) :=
  arranged.all (fun alike => alike.load) fun quiet context survey => quiet (loading context) survey rfl

theorem Part.Images.of_nil {Other : Part → Prop} {images : List Part}
    (arranged : Images place Rel address Other [] images) : ∀ image ∈ images, Other image := by
  generalize none : ([] : List Part) = parts at arranged
  induction arranged with
  | nil => simp
  | cons => exact absurd none (by simp)
  | other holds _ ih => simpa using ⟨holds, ih none⟩

theorem loadAll_quiet {parts : List Part} (quiet : ∀ part ∈ parts, part.IsQuiet) (context : Context)
    (survey : Survey) : Scope.loadAll parts context survey = .ok survey := by
  induction parts with
  | nil => rfl
  | cons part rest ih =>
    simp only [Scope.loadAll, List.map_cons, Step.all_cons]
    exact bind_eq_ok.2 ⟨survey, quiet part (by simp) _ _ rfl, ih fun other mem => quiet other (by simp [mem])⟩

theorem onArguments_quiet {parts : List Part} (quiet : ∀ part ∈ parts, part.IsQuiet) (context : Context)
    (survey : Survey) : onArguments parts context survey = .ok survey := by
  have idle := loadAll_quiet quiet
  cases parts with
  | nil => cases called : context.call <;> simp only [onArguments, called] <;> exact idle _ _
  | cons first rest =>
    have others := loadAll_quiet fun part mem => quiet part (List.mem_cons_of_mem first mem)
    cases called : context.call with
    | none => simp only [onArguments, called]; exact idle _ _
    | newType => simp only [onArguments, called]; exact others _ _
    | cast =>
      simp only [onArguments, called]
      exact bind_eq_ok.2 ⟨survey, quiet first (by simp) _ survey rfl, others _ _⟩

theorem Part.Images.mono {Other More : Part → Prop} (weaker : ∀ {part}, Other part → More part)
    {parts images : List Part} (arranged : Images place Rel address Other parts images) :
    Images place Rel address More parts images := by
  induction arranged with
  | nil => exact .nil
  | cons head _ ih => exact .cons head ih
  | other holds _ ih => exact .other (weaker holds) ih

end

/-- What a node says to a survey is allowed. -/
structure Speaks (Allowed : String → Option Clause → Prop) (node : Node) : Prop where
  text : Allowed (nodeText node) none
  lookup : ∀ text, looseName? node = some text → ∀ part ∈ prefixes text, Allowed part none
  bound : ∀ clause, node.clause? = some clause → ∀ name ∈ clause.boundNames, Allowed name (some clause)

section

variable {root node image : Node} {Allowed : String → Option Clause → Prop} {place : Address → Address}
  {Rel : Survey → Survey → Prop} {address : Option Address} (mirror : Mirror root Allowed place Rel)

/-- The text of a node, if it has one, is read alike. -/
def ReadsAlike (place : Address → Address) (Rel : Survey → Survey → Prop) (node : Node)
    (read readImage : List Char → Step) : Prop :=
  ∀ value, valueOf? node = .ok (some value) →
    Mirrored place Rel none (read (literalText value)) (readImage (literalText value))

theorem onString_mirrored {read readImage : List Char → Step} {step stepImage : Step}
    (reads : ReadsAlike place Rel node read readImage)
    (same : valueOf? image = valueOf? node) (parts : Mirrored place Rel address step stepImage) :
    Mirrored place Rel address (onString read node step) (onString readImage image stepImage) := by
  intro context first second after stands related done
  have parted := parts context first second after stands related
  have hint : readsStrings (context.moved place) = readsStrings context := rfl
  simp only [onString, hint, same] at done ⊢
  split at done
  next reading =>
    rw [if_pos reading]
    obtain ⟨found, valued, done⟩ := bind_eq_ok.1 done
    refine Exists.imp (fun reached => And.imp_left fun ended => bind_eq_ok.2 ⟨found, valued, ended⟩) ?_
    cases found with
    | none => exact parted done
    | some value =>
      simp only at done ⊢
      split at done
      next empty => rw [if_pos empty]; exact parted done
      next text =>
        rw [if_neg text]
        exact reads value valued { loading context with address := none } first second after rfl related done
  next silent => rw [if_neg silent]; exact parted done

theorem onArguments_mirrored {parts images : List Part}
    (arranged : Part.Images place Rel address Part.IsQuiet parts images)
    (heads : ∀ part rest, parts = part :: rest → ∃ image more, images = image :: more ∧
      part.Image place Rel address image ∧ Part.Images place Rel address Part.IsQuiet rest more) :
    Mirrored place Rel address (onArguments parts) (onArguments images) := by
  intro context first second after stands related done
  cases parts with
  | nil =>
    rw [onArguments_quiet (by simp) context first] at done
    obtain rfl := Except.ok.inj done
    exact ⟨second, onArguments_quiet arranged.of_nil _ _, related⟩
  | cons part rest =>
    obtain ⟨image, more, rfl, alike, others⟩ := heads part rest rfl
    cases called : context.call with
    | none =>
      simp only [onArguments, called] at done
      have moved : (context.moved place).call = .none := called
      simp only [onArguments, moved]
      exact arranged.loadAll (loading context) first second after stands related done
    | newType =>
      simp only [onArguments, called] at done
      have moved : (context.moved place).call = .newType := called
      simp only [onArguments, moved]
      exact others.loadAll { loading context with typing := true } first second after stands related done
    | cast =>
      simp only [onArguments, called] at done
      have moved : (context.moved place).call = .cast := called
      simp only [onArguments, moved]
      obtain ⟨middle, ran, done⟩ := bind_eq_ok.1 done
      obtain ⟨reached, follows, related⟩ := alike.load { loading context with typing := true } first
        second middle stands related ran
      obtain ⟨last, ends, related⟩ :=
        others.loadAll (loading context) middle reached after stands related done
      exact ⟨last, bind_eq_ok.2 ⟨reached, follows, ends⟩, related⟩

include mirror

theorem importedAt_moved {first second : Survey} (related : Rel first second) {node : Node}
    (speaks : Speaks Allowed node) (context : Context) {text : String}
    (named : looseName? node = some text) :
    importedAt second (context.moved place) text = importedAt first context text :=
  mirror.imported related context (speaks.lookup text named)

omit mirror in
/-- The names of what is subscripted, if that is a name. -/
def headNames (parts : List Part) (context : Context) (survey : Survey) : List String :=
  match parts.head? with
  | some part => if part.node.isName then importedAt survey context (nodeText part.node) else []
  | none => []

omit mirror in
theorem onSubscript_eq (parts : List Part) (context : Context) (survey : Survey) :
    onSubscript parts context survey = Scope.loadAll parts
      { context with
        typing := (headNames parts context survey).any isTypingName
        verbatim := context.verbatim || (headNames parts context survey).any isLiteralName } survey :=
  rfl

theorem onSubscript_mirrored {parts images : List Part}
    (arranged : Part.Images.Exact place Rel address parts images)
    (speak : ∀ part ∈ parts, Speaks Allowed part.node) :
    Mirrored place Rel address (onSubscript parts) (onSubscript images) := by
  intro context first second after stands related done
  have names : headNames images (context.moved place) second = headNames parts context first := by
    cases arranged with
    | nil => rfl
    | other none => exact none.elim
    | @cons part image _ _ head _ =>
      simp only [headNames, List.head?_cons, head.isName, head.text]
      split
      next named =>
        obtain ⟨parens, id, same⟩ := Node.exists_name named
        exact importedAt_moved mirror related (speak part (by simp)) context (by rw [same]; rfl)
      next => rfl
  have loaded := Part.Images.loadAll (arranged.mono False.elim)
  rw [onSubscript_eq] at done ⊢
  rw [names]
  exact loaded { context with
    typing := (headNames parts context first).any isTypingName
    verbatim := context.verbatim || (headNames parts context first).any isLiteralName }
    first second after stands related done

omit mirror in
/-- A survey with a call recorded that has an address. -/
def recordAt (context : Context) (survey : Survey) : Survey :=
  match context.address with
  | some address => survey.record address context.scope
  | none => survey

omit mirror in
/-- The names that a call is found under. -/
def calledNames (node : Node) (context : Context) (survey : Survey) : List String :=
  ((looseName? node).map (importedAt survey context)).getD []

omit mirror in
theorem onCall_eq (node : Node) (callee arguments : Part) (context : Context) (survey : Survey) :
    onCall node callee arguments context survey =
      callee.step { loading context with typing := false } (recordAt context survey) >>=
        arguments.step { loading context with
          typing := false
          call := typingCallOf (calledNames node context (recordAt context survey)) } :=
  rfl

theorem onCall_mirrored (stands : ∀ found, address = some found → root.part? found = some node)
    (is : node.isA .call = true) (speaks : Speaks Allowed node)
    (same : looseName? image = looseName? node) {callee calleeImage arguments argumentsImage : Part}
    (calls : callee.Image place Rel address calleeImage)
    (gives : arguments.Image place Rel address argumentsImage) :
    Mirrored place Rel address (onCall node callee arguments)
      (onCall image calleeImage argumentsImage) := by
  intro context first second after here related done
  have recorded : Rel (recordAt context first) (recordAt (context.moved place) second) := by
    unfold recordAt Context.moved
    cases found : context.address with
    | none => exact related
    | some call => exact mirror.record related (stands call (here.symm.trans found)) is _
  -- The callee decides how the arguments are surveyed, so it has to be found by the same imports.
  have names : calledNames image (context.moved place) (recordAt (context.moved place) second) =
      calledNames node context (recordAt context first) := by
    unfold calledNames
    rw [same]
    cases named : looseName? node with
    | none => rfl
    | some text => exact importedAt_moved mirror recorded speaks context named
  rw [onCall_eq] at done ⊢
  rw [names]
  obtain ⟨middle, ran, done⟩ := bind_eq_ok.1 done
  obtain ⟨reached, follows, related⟩ := calls.step { loading context with typing := false } _ _ middle
    here recorded ran
  obtain ⟨last, ends, related⟩ := gives.step { loading context with
      typing := false
      call := typingCallOf (calledNames node context (recordAt context first)) }
    middle reached after here related done
  exact ⟨last, bind_eq_ok.2 ⟨reached, follows, ends⟩, related⟩

theorem onImport_mirrored (stands : ∀ found, address = some found → root.part? found = some node)
    (speaks : Speaks Allowed node) (same : image.clause? = node.clause?) :
    Mirrored place Rel address (onImport node) (onImport image) := by
  cases said : node.clause? with
  | none =>
    unfold onImport
    rw [same, said]
    exact .tick mirror
  | some clause =>
    rw [onImport_of_clause said, onImport_of_clause (same.trans said)]
    refine .all fun step mem => ?_
    obtain among | among := List.mem_append.1 mem
    next =>
      obtain ⟨name, bound, rfl⟩ := List.mem_map.1 among
      exact .bind mirror (speaks.bound clause said name bound) fun found place =>
        ⟨node, stands found place, said, fun _ is => Option.some.inj is ▸ bound⟩
    next =>
      obtain rfl := List.mem_singleton.1 among
      exact .tick mirror

theorem redirected {first second : Survey} (related : Rel first second) {scope : Nat}
    (inner : scope ≠ 0) (target : Nat) (names : List String) :
    Rel (names.foldl (fun survey name => survey.redirect scope name target) first)
      (names.foldl (fun survey name => survey.redirect scope name target) second) := by
  induction names generalizing first second with
  | nil => exact related
  | cons name rest ih => exact ih (mirror.redirect related inner name target)

theorem onGlobal_mirrored {parts images : List Part}
    (arranged : Part.Images.Exact place Rel address parts images) :
    Mirrored place Rel address (onGlobal parts) (onGlobal images) := by
  intro context first second after stands related done
  unfold onGlobal at done ⊢
  rw [arranged.declaredNames]
  have scope : (context.moved place).scope = context.scope := rfl
  simp only [scope] at done ⊢
  split at done
  next outer =>
    rw [if_pos outer]
    exact Mirrored.tick mirror context first second after stands related done
  next inner =>
    rw [if_neg inner]
    exact Mirrored.tick mirror context _ _ after stands (redirected mirror related inner 0 _) done

theorem onNonlocal_mirrored {parts images : List Part}
    (arranged : Part.Images.Exact place Rel address parts images) :
    Mirrored place Rel address (onNonlocal parts) (onNonlocal images) := by
  intro context first second after stands related done
  unfold onNonlocal at done ⊢
  rw [arranged.declaredNames]
  have scope : (context.moved place).scope = context.scope := rfl
  simp only [scope, mirror.parent related] at done ⊢
  split at done
  next => exact absurd done (by simp)
  next inner =>
    rw [if_neg inner]
    exact Mirrored.tick mirror context _ _ after stands (redirected mirror related inner _ _) done

theorem withTypes_mirrored {types typesImage : Part} {step stepImage : Step}
    (alike : types.Image place Rel address typesImage)
    (inner : Mirrored place Rel address step stepImage) :
    Mirrored place Rel address (withTypes types step) (withTypes typesImage stepImage) := by
  unfold withTypes
  rw [alike.isAbsent]
  split
  next => exact inner
  next => exact .within mirror .generic (alike.load.andThen inner)

end

/-- Acts that read nothing of the node but its strings. -/
def Act.isPlain : Act → Bool
  | .call | .imports => false
  | .andThen first second => first.isPlain && second.isPlain
  | .within _ act | .outside act | .withTypes _ act => act.isPlain
  | _ => true

theorem rule_call (count : Nat) : rule .call count = .call ∨ (rule .call count).isPlain = true := by
  unfold rule
  split <;> first | exact .inl rfl | exact .inr rfl | contradiction

theorem rule_cases (kind : Kind) (count : Nat) :
    rule kind count = .call ∨ rule kind count = .imports ∨ (rule kind count).isPlain = true := by
  unfold rule
  split <;> first | exact .inl rfl | exact .inr (.inl rfl) | exact .inr (.inr rfl)

theorem clause?_of_kind {kind : Kind} (importing : kind ≠ .importing) (importFrom : kind ≠ .importFrom)
    (parens : Parens) (children : List Node) : (Node.branch kind parens children).clause? = none := by
  unfold Node.clause?
  split
  next same => exact absurd (by injection same) importing
  next same => exact absurd (by injection same) importFrom
  next => rfl

theorem clause?_of_not_isStatement {node : Node} (expression : node.isStatement = false) :
    node.clause? = none := by
  cases node with
  | leaf l => rfl
  | name parens id => rfl
  | branch kind parens children =>
    have other {known : Kind} (statement : known.isStatement = true) : kind ≠ known := by
      rintro rfl
      exact absurd (statement.symm.trans expression) (by decide)
    exact clause?_of_kind (other rfl) (other rfl) parens children

theorem Mirrored.child {place : Address → Address} {Rel : Survey → Survey → Prop}
    {address : Option Address} {step image : Step} {i j : Nat}
    (moves : ∀ found, address = some found → place (found ++ [i]) = place found ++ [j])
    (inner : Mirrored place Rel (address.map (· ++ [i])) step image) :
    Mirrored place Rel address (step.adapted (child · i)) (image.adapted (child · j)) := by
  intro context first second after stands related done
  have below : Scope.child (context.moved place) j = (Scope.child context i).moved place := by
    unfold Scope.child Context.moved
    cases found : context.address with
    | none => rfl
    | some above => simp [moves above (stands.symm.trans found)]
  rw [Step.adapted, below]
  exact inner (Scope.child context i) first second after (by simp [Scope.child, stands]) related done

theorem mem_partsOf {read : List Char → Step} {index : Nat} {nodes : List Node} {part : Part} :
    part ∈ stepOf.partsOf read index nodes ↔ ∃ i node, nodes[i]? = some node ∧
      part = ⟨node, (stepOf read node).adapted (child · (index + i))⟩ := by
  induction nodes generalizing index with
  | nil => simp [stepOf.partsOf]
  | cons node rest ih =>
    rw [stepOf.partsOf, List.mem_cons, ih]
    constructor
    next =>
      rintro (rfl | ⟨i, other, found, rfl⟩)
      next => exact ⟨0, node, rfl, rfl⟩
      next => exact ⟨i + 1, other, found, by rw [Nat.add_right_comm, Nat.add_assoc]⟩
    next =>
      rintro ⟨i, other, found, rfl⟩
      cases i with
      | zero => exact .inl (by obtain rfl := Option.some.inj found; rfl)
      | succ i => exact .inr ⟨i, other, found, by rw [Nat.add_right_comm, Nat.add_assoc]⟩

theorem rule_isPlain {kind : Kind} (call : kind ≠ .call) (importing : kind ≠ .importing)
    (importFrom : kind ≠ .importFrom) (count : Nat) : (rule kind count).isPlain = true := by
  unfold rule
  split <;> first | rfl | contradiction

section

variable {root node image : Node} {Allowed : String → Option Clause → Prop} {place : Address → Address}
  {Rel : Survey → Survey → Prop} {address : Option Address} (mirror : Mirror root Allowed place Rel)
  {read readImage : List Char → Step}

include mirror

theorem Act.run_mirrored (reads : ReadsAlike place Rel node read readImage)
    (stands : ∀ found, address = some found → root.part? found = some node)
    (unimporting : node.clause? = none) (value : valueOf? image = valueOf? node)
    {parts images : List Part} (arranged : Part.Images.Exact place Rel address parts images)
    (speak : ∀ part ∈ parts, Speaks Allowed part.node) (blank : Allowed "" none) {act : Act}
    (plain : act.isPlain = true) :
    Mirrored place Rel address (act.run read node parts) (act.run readImage image images) := by
  have loaded := Part.Images.loadAll (arranged.mono False.elim)
  have at_ := arranged.partAt
  induction act with
  | nothing => exact .skip
  | andThen first second ihFirst ihSecond =>
    rw [isPlain, Bool.and_eq_true] at plain
    exact (ihFirst plain.1).andThen (ihSecond plain.2)
  | tick => exact .tick mirror
  | load part => exact (at_ part).load
  | store part => exact (at_ part).store
  | each => exact loaded
  | alike => exact arranged.all (fun alike => alike.step) False.elim
  | hints => exact loaded.adapted (fun _ => rfl) fun _ => rfl
  | bind part =>
    -- A part that is not there is the absent one, whose text is empty.
    have allowed : Allowed (nodeText (partAt parts part).node) none := by
      unfold partAt
      rw [List.getD_eq_getElem?_getD]
      cases found : parts[part]? with
      | none => exact blank
      | some found_ => exact (speak found_ (List.mem_of_getElem? found)).text
    unfold Act.run bindNode
    rw [(at_ part).text]
    exact .bind mirror allowed (made_of_plain _ stands unimporting)
  | within region act ih => exact .within mirror region (ih plain)
  | outside act ih => exact .outside mirror (ih plain)
  | withTypes types act ih => exact withTypes_mirrored mirror (at_ types) (ih plain)
  | call => exact absurd plain (by decide)
  | arguments =>
    refine onArguments_mirrored (arranged.mono False.elim) ?_
    rintro part rest rfl
    cases arranged with
    | cons head tail => exact ⟨_, _, rfl, head, tail.mono False.elim⟩
    | other none => exact none.elim
  | subscript => exact onSubscript_mirrored mirror arranged speak
  | string => exact onString_mirrored reads value .skip
  | strings => exact onString_mirrored reads value loaded
  | imports => exact absurd plain (by decide)
  | globals => exact onGlobal_mirrored mirror arranged
  | nonlocals => exact onNonlocal_mirrored mirror arranged

theorem stepOf_name_mirrored (parens : Parens) (id : Identifier) (allowed : Allowed id.text none)
    (stands : ∀ found, address = some found → root.part? found = some (.name parens id)) :
    Mirrored place Rel address (stepOf read (.name parens id)) (stepOf readImage (.name parens id)) := by
  intro context first second after here related done
  have known : (context.moved place).address.isSome = context.address.isSome := by
    simp [Context.moved]
  have stores : (context.moved place).storing = context.storing := rfl
  simp only [stepOf, known, stores] at done ⊢
  split at done
  next binds =>
    rw [if_pos binds]
    exact Mirrored.bind mirror allowed (made_of_plain _ stands rfl) context first second after here
      related done
  next loads =>
    rw [if_neg loads]
    obtain rfl := Except.ok.inj done
    exact ⟨second, rfl, related⟩

/-- The step of a node is mirrored by that of a node of its kind whose parts are images of its
parts. -/
theorem stepOf_mirrored {kind : Kind} {parens : Parens} {children others : List Node}
    (reads : ReadsAlike place Rel (.branch kind parens children) read readImage)
    (stands : ∀ found, address = some found → root.part? found = some (.branch kind parens children))
    (speaks : Speaks Allowed (.branch kind parens children))
    (speak : ∀ child ∈ children, Speaks Allowed child) (blank : Allowed "" none)
    (loose : looseName? (.branch kind parens others) = looseName? (.branch kind parens children))
    (clause : (Node.branch kind parens others).clause? = (Node.branch kind parens children).clause?)
    (value : valueOf? (.branch kind parens others) = valueOf? (.branch kind parens children))
    (length : others.length = children.length)
    (arranged : Part.Images.Exact place Rel address (stepOf.partsOf read 0 children)
      (stepOf.partsOf readImage 0 others)) :
    Mirrored place Rel address (stepOf read (.branch kind parens children))
      (stepOf readImage (.branch kind parens others)) := by
  have speak' : ∀ part ∈ stepOf.partsOf read 0 children, Speaks Allowed part.node := by
    intro part mem
    obtain ⟨i, child, found, rfl⟩ := mem_partsOf.1 mem
    exact speak child (List.mem_of_getElem? found)
  have run (unimporting : (Node.branch kind parens children).clause? = none) {act : Act}
      (plain : act.isPlain = true) := act.run_mirrored mirror reads stands unimporting value arranged
    speak' blank plain
  have at_ := arranged.partAt
  unfold stepOf
  rw [length]
  -- All kinds but calls and imports have plain acts.
  by_cases call : kind = .call
  next =>
    subst call
    obtain called | plain := rule_call children.length
    next =>
      rw [called]
      exact onCall_mirrored mirror stands rfl speaks loose (at_ 0) (at_ 2)
    next => exact run (clause?_of_kind (by decide) (by decide) _ _) plain
  by_cases importing : kind = .importing
  next =>
    subst importing
    exact onImport_mirrored mirror stands speaks clause
  by_cases importFrom : kind = .importFrom
  next =>
    subst importFrom
    exact onImport_mirrored mirror stands speaks clause
  exact run (clause?_of_kind importing importFrom _ _) (rule_isPlain call importing importFrom _)

end

end Scope

end Graft
