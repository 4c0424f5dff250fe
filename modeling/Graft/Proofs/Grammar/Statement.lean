import Graft.Proofs.Grammar.Pattern

set_option autoImplicit false

/-!
Small statements have what statements inherit from their parts. One such thing is to be well formed: imports
come out with the names that they bind in their places.
-/
namespace Graft

/-- Kinds of statements whose parts may be any. -/
def Kind.isFree : Kind → Bool
  | .importing | .importFrom => false
  | kind => kind.isStatement

theorem Node.wellFormed_free {kind : Kind} {children : List Node} (free : kind.isFree = true)
    (parts : ∀ child ∈ children, child.wellFormed = true) :
    (Node.plain kind children).wellFormed = true := by
  refine (Node.wellFormed_branch _ _ _).2 ⟨?_, parts⟩
  cases kind <;> first | exact absurd free (by decide) | simp [Shape.fits, Shape.hasRoles, Kind.isStatement]

end Graft

namespace Graft.Grammar

open Reader

theorem binderAs_yields {target : Reader Node} (each : Yields target Node.Part) :
    Yields (binderAs target) Node.Part :=
  .step fun _ => .ite (fun _ => .step fun _ => .bind each fun _ part =>
    .pure (.plain rfl (by simp [part]))) fun _ => .pure .absent

theorem nameBinder_yields : Yields (binderAs Reader.name) fun node =>
    node.isAbsent = true ∨ node.isNameBinder = true := by
  refine .step fun _ => .ite (fun _ => .step fun word => .bind name_yields fun name named => .pure ?_)
    fun _ => .pure (.inl rfl)
  cases name with
  | name parens id => exact .inr rfl
  | leaf _ => exact absurd named.2 (by simp [Node.isName])
  | branch _ _ _ => exact absurd named.2 (by simp [Node.isName])

theorem aliasBinder_yields : Yields (binderAs Reader.name) fun node =>
    node.Part ∧ (node.isAbsent = true ∨ node.isNameBinder = true) :=
  (binderAs_yields (name_yields.imp fun _ h => h.1)).and nameBinder_yields

theorem importAlias_yields {imported : Reader Node} {comma : Reader (List Leaf)} {P Q : Node → Prop}
    (each : Yields imported P) (bound : Yields (binderAs Reader.name) Q) :
    Yields (importAlias imported comma) fun node =>
      ∃ name binder last, node = .plain .alias [name, binder, .glue last] ∧ P name ∧ Q binder :=
  .bind each fun _ named => .bind bound fun _ bound => .step fun _ => .pure ⟨_, _, _, rfl, named, bound⟩

theorem importedModules_yields {P : Node → Prop} (item : ∀ comma, Yields (importAlias dottedName comma) P)
    (fuel : Nat) : Yields (importedModules fuel) fun nodes => ∀ node ∈ nodes, P node := by
  induction fuel with
  | zero => exact .failure
  | succ fuel ih =>
    refine .bind (item _) fun node good => ?_
    split
    next =>
      exact .ite (fun _ => .pure (by simpa using good)) fun _ => .bind ih fun _ tail =>
        .pure (by simpa using ⟨good, tail⟩)
    next => exact .failure

theorem importing_yields {P : Node → Prop} (item : ∀ comma, Yields (importAlias dottedName comma) P) :
    Yields importing fun node => ∃ word items, node = .plain .importing (.glue word :: items) ∧
      ∀ item ∈ items, P item :=
  .step fun _ => .step fun _ => .bind (importedModules_yields item _) fun _ each =>
    .pure ⟨_, _, rfl, each⟩

theorem importedNames_yields {P : Node → Prop} (item : ∀ comma, Yields (importAlias Reader.name comma) P)
    (close : Option String) (fuel : Nat) :
    Yields (importedNames close fuel) fun nodes => ∀ node ∈ nodes, P node := by
  induction fuel with
  | zero => exact .failure
  | succ fuel ih =>
    refine .bind (item _) fun node good => ?_
    have only : ∀ other ∈ [node], P other := by simpa using good
    have more : Yields (do return node :: (← importedNames close fuel)) fun nodes =>
        ∀ node ∈ nodes, P node :=
      .bind ih fun _ tail => .pure (by simpa using ⟨good, tail⟩)
    split
    next =>
      exact .ite (fun _ => .pure only) fun _ => .step fun _ => .ite (fun _ => .pure only) fun _ => more
    next => exact .ite (fun _ => .pure only) fun _ => more
    next => exact .failure

/-- The items of an import of names, or nothing in place of a star. -/
def AreImported (P : Node → Prop) (aliases : Node) : Prop :=
  aliases = .absent ∨ ∃ items, aliases = .plain .aliases items ∧ ∀ item ∈ items, P item

/-- An import of names as it is read, with items of some sort. -/
def IsImportFrom (P : Node → Prop) (node : Node) : Prop :=
  ∃ fromWord dots module word aliases closing,
    node = .plain .importFrom [.glue fromWord, .glue dots, module, .glue word, aliases, .glue closing] ∧
      (module.Part ∧ (module.isAbsent = true ∨ module.isDotted = true)) ∧ AreImported P aliases

/-- What is left of an import of names once its source and the word after that are read. -/
def importedAfter (fromWord dots : List Leaf) (module : Node) (word : List Leaf) : Reader Node := do
  let node := fun (before : List Leaf) (aliases : Node) (closing : List Leaf) =>
    Node.plain .importFrom [.glue fromWord, .glue dots, module, .glue (word ++ before), aliases, .glue closing]
  if ← atWord "*" then return node (← Reader.word "*") .absent []
  else if ← atWord "(" then
    let before ← opening "("
    let aliases ← importedNames (some ")") ((← get).length + 1)
    return node before (.plain .aliases aliases) (← closeImports aliases)
  else
    let aliases ← importedNames none ((← get).length + 1)
    return node [] (.plain .aliases aliases) []

section

variable {P : Node → Prop} (item : ∀ comma, Yields (importAlias Reader.name comma) P)

include item

theorem importedAfter_yields (fromWord dots word : List Leaf) {module : Node}
    (source : module.Part ∧ (module.isAbsent = true ∨ module.isDotted = true)) :
    Yields (importedAfter fromWord dots module word) (IsImportFrom P) := by
  refine .step fun _ => .ite (fun _ => ?_) fun _ => .step fun _ => .ite (fun _ => ?_) fun _ => ?_
  next => exact .step fun _ => .pure ⟨_, _, _, _, _, _, rfl, source, .inl rfl⟩
  next =>
    exact .step fun _ => .step fun _ => .bind (importedNames_yields item _ _) fun _ each =>
      .step fun _ => .pure ⟨_, _, _, _, _, _, rfl, source, .inr ⟨_, rfl, each⟩⟩
  next =>
    exact .step fun _ => .bind (importedNames_yields item _ _) fun _ each =>
      .pure ⟨_, _, _, _, _, _, rfl, source, .inr ⟨_, rfl, each⟩⟩

theorem importFrom_yields : Yields importFrom (IsImportFrom P) := by
  have rest (fromWord dots : List Leaf) {module : Node}
      (source : module.Part ∧ (module.isAbsent = true ∨ module.isDotted = true)) : Yields (do
        let word ← if module.isAbsent then opening "import" else sign "import"
        importedAfter fromWord dots module word) (IsImportFrom P) := by
    have names (word : List Leaf) := importedAfter_yields item fromWord dots word source
    exact .ite (fun _ => .step names) fun _ => .step names
  refine .step fun fromWord => .step fun dots => .step fun _ => .ite (fun _ => ?_) fun _ => ?_
  next =>
    -- Dots alone can be a source.
    exact .bind (P := fun node => node = .absent) (.ite (fun _ => .failure) fun _ => .pure rfl)
      fun module none => rest _ _ (by rw [none]; exact ⟨.absent, .inl rfl⟩)
  next => exact .bind dottedName_yields fun module h => rest _ _ ⟨h.1, .inr h.2⟩

end

/-- What all statements have if parts and imports have it, and other statements have it from their parts. -/
structure Inherits (Holds : Node → Prop) : Prop where
  part : ∀ {node}, node.Part → Holds node
  free : ∀ {kind : Kind} {children}, kind.isFree = true → (∀ child ∈ children, Holds child) →
    Holds (.plain kind children)
  importing : Yields importing Holds
  importFrom : Yields importFrom Holds

theorem importing_wellFormed : Yields importing fun node => node.wellFormed = true := by
  refine (importing_yields (P := fun node => node.Part ∧ node.isA .alias = true) fun _ =>
    (importAlias_yields dottedName_yields aliasBinder_yields).imp ?_).imp ?_
  next =>
    rintro _ ⟨name, binder, last, rfl, named, bound⟩
    exact ⟨.importItem named bound, rfl⟩
  next =>
    rintro _ ⟨word, items, rfl, each⟩
    refine (Node.wellFormed_branch _ _ _).2 ⟨?_, ?_⟩
    next =>
      have glue : (Node.glue word).isA .glue = true := rfl
      simpa [Shape.fits, Shape.hasRoles, Kind.isStatement, glue] using fun node mem => (each node mem).2
    next => simpa [Node.Part.wellFormed] using fun node mem => (each node mem).1.wellFormed

theorem importFrom_wellFormed : Yields importFrom fun node => node.wellFormed = true := by
  refine (importFrom_yields (P := fun node => node.Part ∧ node.isNameAlias = true) fun _ =>
    (importAlias_yields name_yields aliasBinder_yields).imp ?_).imp ?_
  next =>
    rintro _ ⟨name, binder, last, rfl, named, bound⟩
    obtain ⟨parens, id, rfl⟩ := Node.exists_name named.2
    exact ⟨.importItem ⟨named.1, rfl⟩ bound, rfl⟩
  next =>
    rintro _ ⟨fromWord, dots, module, word, aliases, closing, rfl, source, imported⟩
    have group : aliases.wellFormed = true ∧ (aliases.isAbsent = true ∨ aliases.isA .aliases = true) := by
      obtain rfl | ⟨items, rfl, each⟩ := imported
      next => exact ⟨Node.Part.absent.wellFormed, .inl rfl⟩
      next =>
        have apart := Node.Part.apart fun node mem => (each node mem).1
        have named : items.all Node.isNameAlias = true :=
          List.all_eq_true.2 fun node mem => (each node mem).2
        refine ⟨(Node.wellFormed_branch _ _ _).2 ⟨?_, fun node mem => (each node mem).1.wellFormed⟩, .inr rfl⟩
        simp [Shape.fits, Shape.hasRoles, apart, named]
    refine (Node.wellFormed_branch _ _ _).2 ⟨?_, ?_⟩
    next =>
      have glue (leaves : List Leaf) : (Node.glue leaves).isA .glue = true := rfl
      simp [Shape.fits, Shape.hasRoles, Kind.isStatement, glue, source.2, group.2]
    next => simp [source.1.wellFormed, group.1, Node.Part.wellFormed]

theorem wellFormed_inherits : Inherits fun node => node.wellFormed = true :=
  ⟨Node.Part.wellFormed, Node.wellFormed_free, importing_wellFormed, importFrom_wellFormed⟩

theorem importing_isTidy : Yields importing Node.IsTidy := by
  refine (importing_yields (P := Node.IsTidy) fun _ =>
    (importAlias_yields dottedName_yields aliasBinder_yields).imp ?_).imp ?_
  next =>
    rintro _ ⟨name, binder, last, rfl, named, bound⟩
    exact (Node.Part.importItem named bound).isTidy
  next =>
    rintro _ ⟨word, items, rfl, each⟩
    exact Node.isTidy_branch (by decide) {} (by simpa [Node.Part.isTidy] using each)

theorem importFrom_isTidy : Yields importFrom Node.IsTidy := by
  refine (importFrom_yields (P := Node.IsTidy) fun _ =>
    (importAlias_yields name_yields aliasBinder_yields).imp ?_).imp ?_
  next =>
    rintro _ ⟨name, binder, last, rfl, named, bound⟩
    exact Node.isTidy_branch (by decide) {} (by simp [named.1.isTidy, bound.1.isTidy, Node.Part.isTidy])
  next =>
    rintro _ ⟨fromWord, dots, module, word, aliases, closing, rfl, source, imported⟩
    have group : aliases.IsTidy := by
      obtain rfl | ⟨items, rfl, each⟩ := imported
      next => exact Node.Part.absent.isTidy
      next => exact Node.isTidy_branch (by decide) {} each
    exact Node.isTidy_branch (by decide) {} (by simp [source.1.isTidy, group, Node.Part.isTidy])

theorem isTidy_inherits : Inherits Node.IsTidy where
  part := Node.Part.isTidy
  free free each := Node.isTidy_branch (by rintro rfl; exact absurd free (by decide)) {} each
  importing := importing_isTidy
  importFrom := importFrom_isTidy

section

variable {rules : Rules} (good : ∀ goal, Yields (rules goal) Node.Part)

include good

theorem value_yields : Yields (value rules) Node.Part :=
  yieldOr_yields good (starExpressions_yields good)

theorem assignedFrom_yields (fuel : Nat) {last : Node} (part : last.Part) :
    Yields (assignedFrom rules fuel last) fun nodes => ∀ node ∈ nodes, node.Part := by
  induction fuel generalizing last with
  | zero => exact .failure
  | succ fuel ih =>
    refine .step fun _ => .ite (fun _ => .ite (fun _ => .step fun equals => ?_) fun _ => .failure)
      fun _ => .pure (by simp [part])
    have target : (Node.plain .target [last, .glue equals]).Part := .plain rfl (by simp [part])
    exact .bind (value_yields good) fun _ value => .bind (ih value) fun _ tail =>
      .pure (by simpa [target] using tail)

omit good in
theorem afterWord_yields {reader : Reader Node} {word : Reader (List Leaf)}
    (each : Yields reader Node.Part) : Yields (optional do
      let word ← word
      return [.glue word, ← reader]) fun found => ∀ nodes ∈ found, ∀ node ∈ nodes, node.Part :=
  .optional (.step fun _ => .bind each fun _ part => .pure (by simp [part]))

theorem typeParameter_yields : Yields (typeParameter rules) Node.Part := by
  have finish (stars : List Leaf) {name bound default : Node} (named : name.Part)
      (bounded : bound.Part) (defaulted : default.Part) : Yields (do
        let comma := (← optional (sign ",")).getD []
        return .plain .typeParameter [.glue stars, name, bound, default, .glue comma]) Node.Part :=
    .step fun _ => .pure (.plain rfl (by simp [named, bounded, defaulted]))
  have rest (stars : List Leaf) {name bound : Node} (named : name.Part) (bounded : bound.Part) :
      Yields (do
        let default ← if ← atWord "=" then defaultAfter (starOr rules (rules .expression))
          else pure .absent
        let comma := (← optional (sign ",")).getD []
        return .plain .typeParameter [.glue stars, name, bound, default, .glue comma]) Node.Part :=
    .step fun _ => .ite (fun _ => .bind (defaultAfter_yields (starOr_yields good (good _)))
      fun _ h => finish stars named bounded h) fun _ => .bind (.pure .absent) fun _ h =>
        finish stars named bounded h
  -- The stars are read or missing, and so is the bound; what follows is the same each time.
  have main (stars : List Leaf) : Yields (do
      let name ← name
      let bound ← if stars.isEmpty && (← atWord ":") then
          (do
            let colon ← sign ":"
            return .plain .bound [.glue colon, ← rules .expression])
        else pure .absent
      let default ← if ← atWord "=" then defaultAfter (starOr rules (rules .expression))
        else pure .absent
      let comma := (← optional (sign ",")).getD []
      return .plain .typeParameter [.glue stars, name, bound, default, .glue comma]) Node.Part := by
    refine .bind name_yields fun _ named => .step fun _ => .ite (fun _ => ?_) fun _ =>
      .bind (.pure .absent) fun _ h => rest stars named.1 h
    exact .bind (P := Node.Part) (.step fun _ => .bind (good _) fun _ h =>
      .pure (.plain rfl (by simp [h]))) fun _ h => rest stars named.1 h
  exact .step fun _ => .ite (fun _ => .step main) fun _ => .step main

theorem typeParametersFrom_yields (fuel : Nat) :
    Yields (typeParametersFrom rules fuel) fun nodes => ∀ node ∈ nodes, node.Part := by
  induction fuel with
  | zero => exact .failure
  | succ fuel ih =>
    refine .bind (typeParameter_yields good) fun _ part => .ite (fun _ => .step fun _ =>
      .ite (fun _ => .step fun _ => .pure (by simp [part])) fun _ => ?_) fun _ =>
        .step fun _ => .pure (by simp [part])
    exact .bind ih fun _ tail => .pure (by simpa [part] using tail)

theorem typeParameters_yields : Yields (typeParameters rules) Node.Part := by
  refine .step fun _ => .ite (fun _ => .step fun _ => .step fun _ => ?_) fun _ => .pure .absent
  exact .bind (typeParametersFrom_yields good _) fun _ parts => .pure (.plain rfl (by simpa using parts))

end

section

variable {Holds : Node → Prop} (inherits : Inherits Holds)

include inherits

theorem Inherits.parts {kind : Kind} {children : List Node} (free : kind.isFree = true)
    (parts : ∀ child ∈ children, child.Part) : Holds (.plain kind children) :=
  inherits.free free fun child mem => inherits.part (parts child mem)

theorem Inherits.glue (leaves : List Leaf) : Holds (.glue leaves) := inherits.part (.glue leaves)

theorem Inherits.absent : Holds .absent := inherits.part .absent

theorem nameList_yields {kind : Kind} {text : String} (free : kind.isFree = true) :
    Yields (nameList kind text) Holds := by
  refine .step fun _ => .bind name_yields fun _ head => .bind (.many
    (P := fun nodes => ∀ node ∈ nodes, node.Part) (.step fun _ => .bind name_yields fun _ h =>
      .pure (by simp [h.1]))) fun others tail => .pure (inherits.parts free ?_)
  simpa [head.1, or_imp, forall_and] using fun node nodes among mem => tail nodes among node mem

theorem alone_yields (text : String) : Yields (alone text) Holds :=
  .step fun _ => .pure (inherits.parts rfl (by simp))

theorem wordWith_yields {kind : Kind} {text : String} {rest : Reader (List Node)}
    (free : kind.isFree = true) (after : Yields rest fun nodes => ∀ node ∈ nodes, node.Part) :
    Yields (wordWith kind text rest) Holds := by
  refine .step fun _ => .bind (.optional (P := fun nodes => ∀ node ∈ nodes, node.Part)
    (.step fun _ => .bind after fun _ parts => .pure (by simpa using parts))) fun more parts =>
      .pure (inherits.parts free ?_)
  cases more with
  | none => simp
  | some nodes => simpa using parts nodes rfl

variable {rules : Rules} (good : ∀ goal, Yields (rules goal) Node.Part)

include good

theorem annotatedOf_yields {target : Node} (part : target.Part) :
    Yields (annotatedOf rules target) Holds := by
  refine .bind (hintAfter_yields (good _)) fun _ hint => .step fun _ => .ite (fun _ => ?_) fun _ => ?_
  next =>
    exact .step fun _ => .bind (value_yields good) fun _ h =>
      .pure (inherits.parts rfl (by simp [part, hint, h]))
  next => exact .pure (inherits.parts rfl (by simp [part, hint]))

theorem augmentedOf_yields {target : Node} (part : target.Part) : Yields (augmentedOf rules target) Holds :=
  .step fun _ => .bind (value_yields good) fun _ h =>
    .pure (inherits.parts rfl (by simp [part, h]))

theorem expressionOrAssignment_yields : Yields (expressionOrAssignment rules) Holds := by
  refine .bind (value_yields good) fun first part => .step fun _ => .ite (fun _ =>
    .ite (fun _ => annotatedOf_yields inherits good part) fun _ => .failure) fun _ => .step fun _ =>
    .ite (fun _ => .ite (fun _ => augmentedOf_yields inherits good part) fun _ => .failure) fun _ =>
    .step fun _ => .ite (fun _ => ?_) fun _ => .pure (inherits.parts rfl (by simp [part]))
  exact .step fun _ => .bind (assignedFrom_yields good _ part) fun _ parts =>
    .pure (inherits.parts rfl parts)

theorem raising_yields : Yields (raising rules) Holds := by
  refine wordWith_yields inherits rfl (.bind (good _) fun raised part =>
    .bind (afterWord_yields (good _)) fun cause parts => .pure ?_)
  cases cause with
  | none => simp [part]
  | some nodes => simpa [part] using parts nodes rfl

theorem asserting_yields : Yields (asserting rules) Holds := by
  refine .step fun _ => .bind (good _) fun test part => .bind (afterWord_yields (good _))
    fun message parts => .pure (inherits.parts rfl ?_)
  cases message with
  | none => simp [part]
  | some nodes => simpa [part] using parts nodes rfl

theorem deleting_yields : Yields (deleting rules) Holds :=
  .step fun _ => .bind (itemsOrTuple_yields (good _)) fun _ part => .ite (fun _ =>
    .pure (inherits.parts rfl (by simp [part]))) fun _ => .failure

theorem typeAlias_yields : Yields (typeAlias rules) Holds :=
  .step fun _ => .bind name_yields fun _ named => .bind (typeParameters_yields good)
    fun _ parameters => .step fun _ => .bind (good _) fun _ part =>
      .pure (inherits.parts rfl (by simp [named.1, parameters, part]))

theorem smallStatement_yields : Yields (smallStatement rules) Holds :=
  .step fun _ => .ite (fun _ => wordWith_yields inherits rfl (.bind (starExpressions_yields good) fun _ h =>
      .pure (by simp [h]))) fun _ =>
  .step fun _ => .ite (fun _ => inherits.importing) fun _ =>
  .step fun _ => .ite (fun _ => inherits.importFrom) fun _ =>
  .step fun _ => .ite (fun _ => raising_yields inherits good) fun _ =>
  .step fun _ => .ite (fun _ => alone_yields inherits _) fun _ =>
  .step fun _ => .ite (fun _ => deleting_yields inherits good) fun _ =>
  .step fun _ => .ite (fun _ => asserting_yields inherits good) fun _ =>
  .step fun _ => .ite (fun _ => alone_yields inherits _) fun _ =>
  .step fun _ => .ite (fun _ => alone_yields inherits _) fun _ =>
  .step fun _ => .ite (fun _ => nameList_yields inherits rfl) fun _ =>
  .step fun _ => .ite (fun _ => nameList_yields inherits rfl) fun _ =>
  .step fun _ => .ite (fun _ => typeAlias_yields inherits good) fun _ => expressionOrAssignment_yields inherits good

theorem smallStatements_yields (fuel : Nat) :
    Yields (smallStatements rules fuel) fun nodes => ∀ node ∈ nodes, Holds node := by
  induction fuel with
  | zero => exact .failure
  | succ fuel ih =>
    refine .bind (smallStatement_yields inherits good) fun first head => .step fun _ => .ite (fun _ =>
      .step fun _ => .step fun _ => .ite (fun _ => ?_) fun _ => ?_) fun _ => .step fun _ =>
        .ite (fun _ => .pure (by simp [head])) fun _ => .failure
    next => exact .pure (by simp [head, inherits.glue])
    next => exact .bind ih fun _ tail => .pure (by simpa [head, inherits.glue] using tail)

end

end Graft.Grammar
