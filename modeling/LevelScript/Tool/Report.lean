import LevelScript.Level.Basic
import LevelScript.Listing
import LevelScript.Yaml.Render

/-!
# Reports

What the tool writes: a summary of a program, its listing, and what a run leaves behind.
-/

namespace LevelScript.Tool

/-- Variables other than zero, with their numbers. -/
def nonZero (memory : MapMemory) : Document :=
  .list (memory.vars.toList.zipIdx.filterMap fun (v, i) =>
    if v = 0 then none else some (.list [.int i, toDocument v]))

/-! ## Programs -/

def flagsText (f : ScriptFlags) : String :=
  " | ".intercalate ((if f.net then ["NET"] else []) ++ if f.clientSide then ["CLIENTSIDE"] else [])

def scriptSummary (s : Script) : Document :=
  .record [("number", toDocument s.number), ("type_tag", toDocument s.typeTag),
    ("arg_count", toDocument s.argCount), ("entry", toDocument s.entry),
    ("flags", .text (flagsText s.flags)), ("local_count", toDocument s.localCount)]

def functionSummary (f : Function) : Document :=
  .record [("arg_count", toDocument f.argCount), ("local_count", toDocument f.localCount),
    ("has_return", toDocument f.hasReturn), ("import", toDocument f.importTag),
    ("entry", toDocument f.entry)]

def tableSummary (t : StringTable) : Document :=
  .record [("language", .text t.language.displayName), ("strings", toDocument t.texts)]

def summary (p : Program) : Document :=
  .record [("format", .text p.layout.title), ("size", toDocument p.fingerprint.length),
    ("sha256", .text (Text.lowerHexBytes p.fingerprint.digest.toList)),
    ("scripts", .list (p.scripts.map scriptSummary)),
    ("functions", .list (p.functions.toList.map functionSummary)),
    ("arrays", .list (p.memory.arrays.toList.map fun a => .int a.size)),
    ("map_vars", nonZero p.memory), ("strings", .list (p.strings.tables.map tableSummary))]

/-! ## Listings -/

def rowDocument (r : Listing.Row) : Document :=
  .record [("address", toDocument r.address), ("mnemonic", .text r.mnemonic),
    ("operands", toDocument r.operands)]

def bodyDocument (b : Listing.Body) : Document :=
  .record [("kind", .text b.kind.title.toLower), ("id", toDocument b.id),
    ("address", toDocument b.address), ("args_count", toDocument b.argCount),
    ("insts", .list (b.rows.map rowDocument))]

/-- A body as printed text. -/
def bodyText (b : Listing.Body) : String :=
  let head := s!"{b.kind.title} {b.id.toInt} ({b.argCount} args) @ 0x" ++
    Text.upperHex b.address.toNat ++ "\n"
  head ++ String.join (b.rows.map fun r => "  " ++ r.text ++ "\n")

/-! ## Runs -/

def instanceSummary (i : Instance) : Document :=
  .record [("number", toDocument i.number), ("state", .text i.status.title),
    ("pc", toDocument i.pc)]

def runReport (l : Level) : Document :=
  .record [("tick", toDocument l.tick), ("instances", .list (l.instances.map instanceSummary)),
    ("map_vars", nonZero l.memory)]

/-- The file that names the others of an exported project. -/
def projectFile : String :=
  "module_file = \"module.yaml\"\ndisassembly_file = \"disassembly.yaml\"\n"

end LevelScript.Tool
