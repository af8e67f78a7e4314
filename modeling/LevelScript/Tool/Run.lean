import LevelScript.Image.Load
import LevelScript.Level.Tick
import LevelScript.Snapshot.Bytes
import LevelScript.Toml.Read
import LevelScript.Tool.Arguments
import LevelScript.Tool.Disk
import LevelScript.Tool.Report
import LevelScript.World.Console

/-!
# The tool

Loads an image and exports it, lists it, or runs it as a level. What is printed and reported is
collected; only files are read and written on the way.
-/

namespace LevelScript.Tool

/-- What was printed and reported so far. -/
structure Printed where
  output : String
  journal : Journal

/-- Why the tool failed: a line, and what was behind it. -/
structure Failure where
  line : String
  cause : Option String := none
  deriving DecidableEq, Repr, Inhabited

/-- Work of the tool over a file system. -/
abbrev Work (m : Type → Type) := ExceptT Failure (StateT Printed m)

variable {m : Type → Type} [Monad m]

def print (s : String) : Work m Unit := modify fun p => { p with output := p.output ++ s }

def noteAll (ds : List Diagnostic) : Work m Unit :=
  modify fun p => { p with journal := p.journal.noteAll ds }

/-- Goes on with a result, or fails with a line in front of the cause. -/
def orFail {α : Type} (line : String) : Except DiskError α → Work m α
  | .ok a => pure a
  | .error e => throw ⟨line, some e.message⟩

/-- Goes on with a result, or fails with the cause alone. -/
def orStop {α : Type} : Except DiskError α → Work m α
  | .ok a => pure a
  | .error e => throw ⟨e.message, none⟩

variable [Disk m]

def readFile (path : Path) : Work m (Except DiskError (List UInt8)) :=
  fun p => do return (.ok (← Disk.read path), p)

def writeFile (path : Path) (bytes : List UInt8) : Work m (Except DiskError Unit) :=
  fun p => do return (.ok (← Disk.write path bytes), p)

def makeDirectories (path : Path) : Work m (Except DiskError Unit) :=
  fun p => do return (.ok (← Disk.makeDirectories path), p)

/-! ## Parts -/

/-- Loads the image in a file. -/
def loadProgram (path : String) (encoding : Text.Encoding) : Work m Program := do
  let bytes ← orFail s!"cannot read {path}" (← readFile (.ofText path))
  let journal := (← get).journal
  match Image.load bytes.toArray encoding journal with
  | .ok program journal =>
    modify fun p => { p with journal := journal }
    pure program
  | .error e journal =>
    modify fun p => { p with journal := journal }
    throw ⟨s!"cannot load {path}", some e.message⟩

/-- Settings from a file, or else from the environment. -/
def loadConfig (env : Config.Environment) : Option String → Work m Config
  | none => do
    let (config, reports) := Config.ofEnvironment env
    noteAll reports
    pure config
  | some path => do
    let bytes ← orFail s!"cannot read config {path}" (← readFile (.ofText path))
    match Text.Utf8.decode? bytes with
    | .error e => throw ⟨s!"cannot read config {path}", some e.message⟩
    | .ok text =>
      match (Toml.parseSettings? text).bind ofDocument? with
      | some config => pure config
      | none => throw ⟨s!"bad config {path}", none⟩

/-- Writes the listing, the summary and the project file to a directory. -/
def exportProgram (program : Program) (directory : String) : Work m Unit := do
  let path := Path.ofText directory
  orStop (← makeDirectories path)
  let (bodies, reports) := Listing.bodies program
  noteAll reports
  let write (name content : String) : Work m Unit := do
    orStop (← writeFile (path.child name) (Text.Utf8.encode content))
  write "disassembly.yaml" (Yaml.render (.list (bodies.map bodyDocument)))
  write "module.yaml" (Yaml.render (summary program))
  write "project.toml" projectFile
  noteAll [.exported bodies.length directory]

omit [Disk m] in
/-- Prints the listing, or one script of it. -/
def listProgram (program : Program) (script : Option Int32) : Work m Unit := do
  let (bodies, reports) := Listing.bodies program
  noteAll reports
  match script with
  | none => print (String.join (bodies.map bodyText))
  | some n =>
    match Listing.script? bodies n with
    | some body => print (bodyText body)
    | none => throw ⟨s!"script {n.toInt} is not in the module", none⟩

/-- Runs the program as a level and prints what is left. -/
def runProgram (program : Program) (env : Config.Environment) (o : RunOptions) :
    Work m Unit := do
  let config ← loadConfig env o.config
  let journal := (← get).journal
  let world : ConsoleWorld := { busyTags := o.busyTags, seed := o.seed }
  let start : Simulation ConsoleWorld := ⟨.start program o.map config, .empty, world, journal⟩
  let final := o.ticks.toNat.repeat Simulation.tick start.begin
  modify fun p => { p with journal := final.journal }
  print (final.world.output ++ Yaml.render (runReport final.level))
  noteAll [.sideEffects final.world.effects o.ticks.toNat]
  match o.snapshot with
  | none => pure ()
  | some path =>
    orFail s!"cannot write snapshot {path}"
      (← writeFile (.ofText path) final.level.snapshot.toBytes)

/-! ## The whole -/

def work (env : Config.Environment) (a : Arguments) : Work m Unit := do
  let program ← loadProgram a.input a.encoding
  match a.command with
  | .exportTo directory => exportProgram program directory
  | .list script => listProgram program script
  | .run options => runProgram program env options

/-- What the tool leaves behind. -/
structure Outcome where
  exitCode : UInt8
  output : String
  journal : Journal
  failure : Option Failure

/-- Runs the tool. -/
def run (arguments : List String) (env : Config.Environment) (journal : Journal) :
    m Outcome := do
  match Arguments.parse arguments with
  | .error .help => return ⟨0, "", journal, none⟩
  | .error .misuse => return ⟨2, "", journal, none⟩
  | .ok a =>
    let (result, p) ← (work env a).run ⟨"", journal⟩
    match result with
    | .ok () => return ⟨0, p.output, p.journal, none⟩
    | .error f => return ⟨1, p.output, p.journal, some f⟩

end LevelScript.Tool
