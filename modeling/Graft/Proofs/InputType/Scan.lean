import Graft.Proofs.Grafting.Work
import Graft.Proofs.InputType.Soundness

set_option autoImplicit false

/-!
The input type of a call by one scan of its properties, from the right to the first decisive entry. The two
passes of the classifier come to the same.
-/
namespace Graft

open Entry

/-- Where the input type of a call comes from. -/
inductive TypeSource where
  | default
  | literal (type : String)
  | bound
  deriving DecidableEq, Repr

namespace TypeSource

def decision (default : String) : TypeSource → Decision
  | .default => .static default
  | .literal type => .static type
  | .bound => .dynamic

def advice (place : String) : TypeSource → List String
  | .bound => [boundTypeAdvice place]
  | _ => []

/-- What the last decisive entry says. A type that is not one literal of text is bound. -/
def ofEntry : Option Entry → TypeSource
  | none => .default
  | some (.spread _) => .bound
  | some (.keyed _ value) =>
    match value.stringValue? with
    | .ok (some type) => .literal type
    | _ => .bound

def ofProps (props : Option Node) : TypeSource :=
  match props, props.bind Node.entries? with
  | none, _ => .default
  | some _, some entries => .ofEntry (lastDecisive? entries)
  | some _, none => .bound

theorem ofEntry_eq_default_iff (entry : Option Entry) : ofEntry entry = .default ↔ entry = none := by
  unfold ofEntry
  split
  next => simp
  next => simp
  next => split <;> simp

theorem ofEntry_eq_literal_iff (entry : Option Entry) (type : String) : ofEntry entry = .literal type ↔
    ∃ key value, entry = some (.keyed key value) ∧ value.stringValue? = .ok (some type) := by
  unfold ofEntry
  split
  next => simp
  next => simp
  next key value =>
    constructor
    next =>
      intro same
      split at same
      next read => exact ⟨key, value, rfl, read.trans (by rw [TypeSource.literal.inj same])⟩
      next => exact absurd same (by simp)
    next =>
      rintro ⟨_, _, same, read⟩
      obtain ⟨-, rfl⟩ := Entry.keyed.inj (Option.some.inj same)
      rw [read]

theorem ofProps_some {node : Node} {entries : List Entry} (shown : node.entries? = some entries) :
    ofProps (some node) = .ofEntry (lastDecisive? entries) := by
  simp [ofProps, shown]

theorem ofProps_other {node : Node} (other : node.entries? = none) : ofProps (some node) = .bound := by
  simp [ofProps, other]

theorem ofProps_eq_default_iff (props : Option Node) : ofProps props = .default ↔
    props = none ∨ ∃ node entries, props = some node ∧ node.entries? = some entries ∧
      ∀ entry ∈ entries, entry.isDecisive = false := by
  cases props with
  | none => simp [ofProps]
  | some node =>
    cases shown : node.entries? with
    | none => simp [ofProps_other shown, shown]
    | some entries => simp [ofProps_some shown, ofEntry_eq_default_iff, shown, lastDecisive?]

theorem ofProps_eq_literal_iff (props : Option Node) (type : String) : ofProps props = .literal type ↔
    ∃ node entries key value, props = some node ∧ node.entries? = some entries ∧
      lastDecisive? entries = some (.keyed key value) ∧ value.stringValue? = .ok (some type) := by
  cases props with
  | none => simp [ofProps]
  | some node =>
    cases shown : node.entries? with
    | none => simp [ofProps_other shown, shown]
    | some entries => simp [ofProps_some shown, ofEntry_eq_literal_iff, shown]

end TypeSource

/-- Properties whose literals can be read, as far as the type depends on them. -/
def PropsAreReadable (props : Option Node) : Prop :=
  ∀ node ∈ props, ∀ entries ∈ node.entries?, AreReadable entries

theorem Node.mem_nodes_of_entries? {node : Node} {entries : List Entry} (shown : node.entries? = some entries)
    {entry : Entry} (mem : entry ∈ entries) :
    match entry with
    | .keyed key value => key ∈ node.nodes ∧ value ∈ node.nodes
    | .spread value => value ∈ node.nodes := by
  have top : node ∈ node.nodes := mem_nodes.2 ⟨[], rfl⟩
  unfold entries? at shown
  split at shown
  next opening group closing =>
    obtain rfl := Option.some.inj shown
    obtain ⟨part, among, is⟩ := List.mem_filterMap.1 mem
    have here := mem_nodes_of_child (mem_nodes_of_child top (show group ∈ _ by simp [children])) among
    unfold entry? at is
    split at is
    next key colon value comma =>
      obtain rfl := Option.some.inj is
      exact ⟨mem_nodes_of_child here (by simp [children]), mem_nodes_of_child here (by simp [children])⟩
    next stars value comma =>
      obtain rfl := Option.some.inj is
      exact mem_nodes_of_child here (by simp [children])
    next => exact absurd is (by simp)
  next => exact absurd shown (by simp)

theorem Entry.lastType?_mem {entries : List Entry} {value : Node} (last : lastType? entries = some value) :
    ∃ key, .keyed key value ∈ entries := by
  induction entries using List.reverseRecOn with
  | nil => exact absurd last (by simp [lastType?])
  | append_singleton entries entry ih =>
    have earlier (same : lastType? entries = some value) : ∃ key, .keyed key value ∈ entries ++ [entry] :=
      (ih same).imp fun _ => List.mem_append_left _
    rw [lastType?, List.foldl_append, List.foldl_cons, List.foldl_nil] at last
    cases entry with
    | spread other => exact absurd last (by simp [typeAfter])
    | keyed key other =>
      rw [typeAfter] at last
      split at last
      next => exact ⟨key, by simp [Option.some.inj last]⟩
      next => exact earlier last

theorem propsAreReadable_of_nodes {props : Option Node}
    (readable : ∀ node ∈ props, ∀ part ∈ node.nodes, part.IsReadable) : PropsAreReadable props := by
  intro node is entries shown
  refine ⟨fun entry mem => ?_, fun value last => ?_⟩
  next =>
    have inside := Node.mem_nodes_of_entries? shown mem
    cases entry with
    | keyed key value => exact readable node is key inside.1
    | spread value => exact trivial
  next =>
    obtain ⟨key, mem⟩ := Entry.lastType?_mem last
    exact readable node is value (Node.mem_nodes_of_entries? shown mem).2

theorem literalType?_of_readable {entries : List Entry} (readable : AreReadable entries) (default : String) :
    literalType? default entries = .ok (match TypeSource.ofEntry (lastDecisive? entries) with
      | .default => some default
      | .literal type => some type
      | .bound => none) := by
  -- Both passes are told twice: by the last decisive entry, and by the last type, whose value can be read.
  obtain ⟨found, hidden, first, second, settles⟩ := passes_of_lastDecisive? readable.keys
  obtain ⟨again, covered, same, alike, whole⟩ := passes_of_readable readable.keys
  obtain rfl := Except.ok.inj (first.symm.trans same)
  obtain rfl := Except.ok.inj (second.symm.trans alike)
  simp only [literalType?, first, second, bind, Except.bind, pure, Except.pure]
  cases last : lastDecisive? entries with
  | none =>
    rw [last] at settles
    obtain ⟨rfl, rfl⟩ := settles
    rfl
  | some entry =>
    rw [last] at settles
    cases entry with
    | spread value =>
      obtain rfl : hidden = true := settles
      rfl
    | keyed key value =>
      obtain ⟨rfl, rfl⟩ := settles
      obtain ⟨text, read⟩ := readable.type value whole
      simp only [TypeSource.ofEntry, read]
      cases text <;> rfl

theorem classify_of_readable {props : Option Node} (readable : PropsAreReadable props) (default place : String) :
    classify default place props = .ok ⟨(TypeSource.ofProps props).decision default,
      ((TypeSource.ofProps props).advice place).head?⟩ := by
  cases props with
  | none => rfl
  | some node =>
    cases shown : node.entries? with
    | none =>
      rw [TypeSource.ofProps_other shown]
      simp only [classify, shown]
      rfl
    | some entries =>
      rw [TypeSource.ofProps_some shown]
      simp only [classify, shown, literalType?_of_readable (readable node rfl entries shown) default]
      cases TypeSource.ofEntry (lastDecisive? entries) <;> rfl

theorem TypeSource.toList_head?_advice (source : TypeSource) (place : String) :
    (source.advice place).head?.toList = source.advice place := by
  cases source <;> rfl

theorem TypeSource.notices_advice (source : TypeSource) (decision : Decision) (place : String) :
    (Classified.mk decision (source.advice place).head?).notices = (source.advice place).map Notice.warning := by
  cases source <;> rfl

def failsWith {A : Type} (fault : Fault) : Except Fault A → Bool
  | .error other => other == fault
  | .ok _ => false

theorem eq_error_of_failsWith {A : Type} {fault : Fault} {result : Except Fault A}
    (fails : failsWith fault result = true) : result = .error fault := by
  cases result with
  | error other => exact congrArg Except.error (beq_iff_eq.1 fails)
  | ok value => exact absurd fails (by simp [failsWith])

def onlyWritesType (written : String) : List Entry → Bool
  | [.keyed key value] => key.stringValue?.toOption == some (some typeKey) && value.source == written
  | _ => false

theorem exists_of_onlyWritesType {written : String} {entries : List Entry}
    (only : onlyWritesType written entries = true) : ∃ key value, entries = [.keyed key value] ∧
      key.stringValue? = .ok (some typeKey) ∧ value.source = written := by
  unfold onlyWritesType at only
  split at only
  next key value =>
    rw [Bool.and_eq_true, beq_iff_eq, beq_iff_eq] at only
    exact ⟨key, value, rfl, eq_ok_of_toOption only.1, only.2⟩
  next => exact absurd only (by simp)

end Graft
