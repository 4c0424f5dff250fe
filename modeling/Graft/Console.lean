import Graft.Notice
import Graft.Text.Blank
import Graft.Text.Cell

set_option autoImplicit false

/-!
Routing of notices. A journal has a threshold and a list of handlers, and one of its handlers
writes to the current console. Changing the console binds that handler anew.
-/
namespace Graft

/-- The threshold of a journal. What ranks below it is not shown. -/
structure Level where
  rank : Int
  deriving DecidableEq, Repr

namespace Level

def unset : Level := ⟨0⟩

def debug : Level := ⟨10⟩

def info : Level := ⟨20⟩

def warning : Level := ⟨30⟩

def error : Level := ⟨40⟩

def critical : Level := ⟨50⟩

def named : List (String × Level) :=
  [("NOTSET", unset), ("DEBUG", debug), ("INFO", info), ("WARNING", warning), ("ERROR", error),
    ("CRITICAL", critical)]

def ofName? (name : String) : Option Level := named.lookup name

def name (level : Level) : String :=
  match named.find? fun entry => entry.2 = level with
  | some (name, _) => name
  | none => "Level " ++ toString level.rank

end Level

def Severity.level : Severity → Level
  | .debug => Level.debug
  | .warning => Level.warning
  | .error => Level.error

/-- Consoles differ if their serial numbers do, whatever their width. -/
structure Console where
  serial : Nat
  width : Nat
  deriving DecidableEq, Repr

inductive Handler where
  | console (target : Console)
  | other (serial : Nat)
  deriving DecidableEq, Repr

def Handler.isConsole : Handler → Bool
  | .console _ => true
  | .other _ => false

/-- The console that a handler writes to. -/
def Handler.target? : Handler → Option Console
  | .console target => some target
  | .other _ => none

@[simp] theorem Handler.isConsole_console (target : Console) : (console target).isConsole = true := rfl

@[simp] theorem Handler.isConsole_other (serial : Nat) : (other serial).isConsole = false := rfl

structure Journal where
  handlers : List Handler
  level : Level
  current : Console
  /-- The serial number of the next console. -/
  fresh : Nat
  deriving DecidableEq, Repr

namespace Journal

def standardWidth : Nat := 80

def initial : Journal :=
  let console : Console := ⟨0, standardWidth⟩
  { handlers := [.console console], level := Level.warning, current := console, fresh := 1 }

/-- Informative notices must be visible without further setup. -/
def audible (level : Level) : Level :=
  if level = Level.unset ∨ Level.info.rank < level.rank then Level.info else level

def bind (journal : Journal) (console : Console) : Journal :=
  { journal with
    handlers := journal.handlers.filter (fun handler => !handler.isConsole) ++ [.console console]
    level := audible journal.level
    current := console }

/-- Takes a console over from a host. Serial numbers go on behind that of a new one. -/
def adopt (journal : Journal) (console : Console) : Journal :=
  { journal with fresh := max journal.fresh (console.serial + 1) }.bind console

def inject (journal : Journal) (width : Nat) : Journal :=
  journal.adopt ⟨journal.fresh, width⟩

def reset (journal : Journal) : Journal :=
  journal.inject standardWidth

/-- The first journal of a host that has handlers and a level of its own. -/
def opened (handlers : List Handler) (level : Level) (fresh : Nat) : Journal :=
  reset { handlers, level, current := ⟨fresh, standardWidth⟩, fresh }

def setLevel (journal : Journal) (level : Level) : Journal :=
  { journal with level }

def consoleHandlers (journal : Journal) : Nat :=
  journal.handlers.countP Handler.isConsole

def admits (journal : Journal) (severity : Severity) : Bool :=
  journal.level.rank ≤ severity.level.rank

/-- Each console that a notice is written to, in the order of the handlers. -/
def targets (journal : Journal) (notice : Notice) : List Console :=
  if journal.admits notice.severity then journal.handlers.filterMap Handler.target? else []

end Journal

def splitLines : List Char → List (List Char)
  | [] => [[]]
  | c :: rest =>
    if c = '\n' then [] :: splitLines rest
    else
      match splitLines rest with
      | [] => [[c]]
      | line :: others => (c :: line) :: others

def padRight (width : Nat) (text : List Char) : List Char :=
  text ++ List.replicate (width - text.length) ' '

/-- The lines of a message, as they are shown. -/
def shownLines (message : String) : List (List Char) :=
  (splitLines (message.toList.filter fun c => !Text.Cell.isControl c)).map (Text.Cell.expandTabs 0)

/-- Lines as a console shows them: the level in a margin, and the message beside it. -/
def Notice.lines (notice : Notice) : List String :=
  let margin := padRight 8 notice.severity.level.name.toList ++ [' ']
  let blank := List.replicate margin.length ' '
  match shownLines notice.text with
  | [] => []
  | first :: rest =>
    ((margin ++ first) :: rest.map (blank ++ ·)).map fun line => String.ofList (Text.trimEnd line)

def plainLines (text : String) : List String :=
  (shownLines text).map fun line => String.ofList (Text.trimEnd line)

namespace Journal

/-- What a notice adds to a console. -/
def written (journal : Journal) (console : Console) (notice : Notice) : List String :=
  ((journal.targets notice).filter (· = console)).flatMap fun _ => notice.lines

end Journal

/-- What a host does with a journal. -/
inductive Event where
  | console (target : Console)
  | reset
  | level (level : Level)
  | notice (notice : Notice)
  deriving DecidableEq, Repr

def Event.setsConsole : Event → Bool
  | .console _ | .reset => true
  | _ => false

/-- A notice that a console has been given. -/
abbrev Delivery := Console × Notice

namespace Journal

def step (journal : Journal) : Event → Journal × List Delivery
  | .console target => (journal.adopt target, [])
  | .reset => (journal.reset, [])
  | .level level => (journal.setLevel level, [])
  | .notice notice => (journal, (journal.targets notice).map (·, notice))

def run (journal : Journal) : List Event → Journal × List Delivery
  | [] => (journal, [])
  | event :: rest =>
    let (next, first) := journal.step event
    let (last, others) := next.run rest
    (last, first ++ others)

end Journal

end Graft
