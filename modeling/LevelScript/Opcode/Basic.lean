import LevelScript.World.Basic

/-!
# Opcodes

Every instruction starts with an opcode. Opcodes come in families: one operation for each
variable scope, or one that takes its values from the stack and one that finds them in the code.
An `Opcode` is such a family together with its choice, so each value is an opcode that exists.

* `Opcode.layout` says which operands follow the opcode.
* `Opcode.mnemonic` is its name in listings.
-/

namespace LevelScript

/-- Where a variable lives. -/
inductive Scope where
  | script
  | map
  | world
  | global
  deriving DecidableEq, Repr, Inhabited

/-- Where an array lives. -/
inductive ArrayScope where
  | map
  | world
  | global
  deriving DecidableEq, Repr, Inhabited

/-- How a stored value changes. -/
inductive Update where
  | assign
  | add
  | sub
  | mul
  | div
  | mod
  | inc
  | dec
  deriving DecidableEq, Repr, Inhabited

/-- Operations on two values that always give a value. -/
inductive Binary where
  | add
  | subtract
  | multiply
  | fixedMul
  | eq
  | ne
  | lt
  | gt
  | le
  | ge
  | andLogical
  | orLogical
  | andBitwise
  | orBitwise
  | eorBitwise
  | lShift
  | rShift
  deriving DecidableEq, Repr, Inhabited

/-- Operations on two values that have no value for a zero divisor. -/
inductive Division where
  | divide
  | modulus
  | fixedDiv
  deriving DecidableEq, Repr, Inhabited

/-- Where an instruction takes its values from: the stack, words in the code, or bytes in the
code. -/
inductive Source where
  | stack
  | words
  | bytes
  deriving DecidableEq, Repr, Inhabited

/-- Where an instruction that may be direct has its values. -/
def Source.ofDirect (direct : Bool) : Source :=
  if direct then .words else .stack

/-- How many values an instruction takes, from one to five. -/
inductive UpToFive where
  | one
  | two
  | three
  | four
  | five
  deriving DecidableEq, Repr, Inhabited

def UpToFive.toNat : UpToFive → Nat
  | .one => 1
  | .two => 2
  | .three => 3
  | .four => 4
  | .five => 5

/-- An opcode. Where an opcode has a `direct` form, its values stand in the code. -/
inductive Opcode where
  | nop
  | terminate
  | suspend
  | restart
  | pushNumber
  | pushBytes (count : UpToFive)
  | pushByteList
  | drop
  | dup
  | swap
  | binary (op : Binary)
  | division (op : Division)
  | negateLogical
  | unaryMinus
  | sin
  | cos
  | vectorAngle
  | pushVar (scope : Scope)
  | updateVar (update : Update) (scope : Scope)
  | pushArray (scope : ArrayScope)
  | updateArray (update : Update) (scope : ArrayScope)
  | goto
  | branch (whenTrue : Bool)
  | caseGoto
  | caseGotoSorted
  | call (discard : Bool)
  | returnVoid
  | returnVal
  | delay (source : Source)
  | tagWait (direct : Bool)
  | polyWait (direct : Bool)
  | scriptWait (direct : Bool)
  | special (argc : UpToFive) (source : Source)
  | specialResult
  | random (source : Source)
  | thingCount (direct : Bool)
  | lineSide
  | playerCount
  | gameType
  | gameSkill
  | timer
  | isNetworkGame
  | singlePlayer
  | playerHealth
  | playerArmorPoints
  | playerFrags
  | activatorTid
  | playerNumber
  | playerInGame
  | actorPosition (axis : Axis)
  | checkInventory (direct : Bool)
  | strLen
  | changeFlat (surface : Surface) (direct : Bool)
  | clearLineSpecial
  | setLineTexture
  | setLineBlocking (kind : Blocking)
  | setLineSpecial
  | setGravity (direct : Bool)
  | setAirControl (direct : Bool)
  | clearInventory
  | giveInventory (direct : Bool)
  | takeInventory (direct : Bool)
  | spawn (direct : Bool)
  | spawnSpot (direct : Bool)
  | beginPrint
  | printString
  | printLocalized
  | printNumber
  | printCharacter
  | printFixed
  | printName
  | endPrint (bold : Bool)
  | moreHudMessage
  | optHudMessage
  | endHudMessage (bold : Bool)
  | setFont (direct : Bool)
  | sectorSound
  | ambientSound
  | localAmbientSound
  | activatorSound
  | thingSound
  | soundSequence
  | musicChange
  | setMusic (direct : Bool)
  | localSetMusic (direct : Bool)
  | fadeTo
  | fadeRange
  | cancelFade
  deriving DecidableEq, Repr, Inhabited

/-- Kinds of operands that follow an opcode. -/
inductive OperandKind where
  /-- A word of four bytes. -/
  | word
  /-- A number of a variable, array, function or special: a word in the wide encoding, a byte
  in the compact one. -/
  | index
  /-- One byte in either encoding. -/
  | raw
  /-- A count byte and that many bytes. -/
  | rawList
  /-- At the next multiple of four a count word, then that many pairs of value and target. -/
  | caseTable
  deriving DecidableEq, Repr, Inhabited

namespace Opcode

/-! ## Operands -/

/-- `count` words if the values stand in the code. -/
def directWords (count : Nat) (direct : Bool) : List OperandKind :=
  if direct then List.replicate count .word else []

/-- The operands that follow the opcode, in order. -/
def layout : Opcode → List OperandKind
  | pushNumber | goto | branch _ => [.word]
  | caseGoto => [.word, .word]
  | caseGotoSorted => [.caseTable]
  | call _ | pushVar _ | updateVar _ _ | pushArray _ | updateArray _ _ | specialResult => [.index]
  | pushBytes count => List.replicate count.toNat .raw
  | pushByteList => [.rawList]
  | delay .words => [.word]
  | delay .bytes => [.raw]
  | special _ .stack => [.index]
  | special argc .words => .index :: List.replicate argc.toNat .word
  | special argc .bytes => .raw :: List.replicate argc.toNat .raw
  | random .words => [.word, .word]
  | random .bytes => [.raw, .raw]
  | tagWait direct | polyWait direct | scriptWait direct | setGravity direct
  | setAirControl direct | checkInventory direct | setFont direct => directWords 1 direct
  | thingCount direct | changeFlat _ direct | giveInventory direct | takeInventory direct =>
    directWords 2 direct
  | setMusic direct | localSetMusic direct => directWords 3 direct
  | spawnSpot direct => directWords 4 direct
  | spawn direct => directWords 6 direct
  | _ => []

/-- Whether control never reaches the instruction after this one. -/
def endsBlock : Opcode → Bool
  | terminate | restart | goto | returnVoid | returnVal => true
  | _ => false

/-! ## Names -/

def withDirect (name : String) (direct : Bool) : String :=
  if direct then name ++ "direct" else name

def withSource (name : String) : Source → String
  | .stack => name
  | .words => name ++ "direct"
  | .bytes => name ++ "directb"

def withBold (name : String) (bold : Bool) : String :=
  if bold then name ++ "bold" else name

end Opcode

def Scope.name : Scope → String
  | .script => "script"
  | .map => "map"
  | .world => "world"
  | .global => "global"

/-- The name in messages. -/
def Scope.title : Scope → String
  | .script => "Script"
  | .map => "Map"
  | .world => "World"
  | .global => "Global"

def ArrayScope.name : ArrayScope → String
  | .map => "map"
  | .world => "world"
  | .global => "global"

def Update.name : Update → String
  | .assign => "assign"
  | .add => "add"
  | .sub => "sub"
  | .mul => "mul"
  | .div => "div"
  | .mod => "mod"
  | .inc => "inc"
  | .dec => "dec"

/-- Whether the update takes a value from the stack; the other two step by one. -/
def Update.takesOperand : Update → Bool
  | .inc | .dec => false
  | _ => true

def Binary.name : Binary → String
  | .add => "add"
  | .subtract => "subtract"
  | .multiply => "multiply"
  | .fixedMul => "fixedmul"
  | .eq => "eq"
  | .ne => "ne"
  | .lt => "lt"
  | .gt => "gt"
  | .le => "le"
  | .ge => "ge"
  | .andLogical => "andlogical"
  | .orLogical => "orlogical"
  | .andBitwise => "andbitwise"
  | .orBitwise => "orbitwise"
  | .eorBitwise => "eorbitwise"
  | .lShift => "lshift"
  | .rShift => "rshift"

def Division.name : Division → String
  | .divide => "divide"
  | .modulus => "modulus"
  | .fixedDiv => "fixeddiv"

def Axis.name : Axis → String
  | .x => "x"
  | .y => "y"
  | .z => "z"

namespace Opcode

/-- The name in listings. -/
def mnemonic : Opcode → String
  | nop => "nop"
  | terminate => "terminate"
  | suspend => "suspend"
  | restart => "restart"
  | pushNumber => "pushnumber"
  | pushBytes .one => "pushbyte"
  | pushBytes count => s!"push{count.toNat}bytes"
  | pushByteList => "pushbytes"
  | drop => "drop"
  | dup => "dup"
  | swap => "swap"
  | binary op => op.name
  | division op => op.name
  | negateLogical => "negatelogical"
  | unaryMinus => "unaryminus"
  | sin => "sin"
  | cos => "cos"
  | vectorAngle => "vectorangle"
  | pushVar scope => "push" ++ scope.name ++ "var"
  | updateVar update scope => update.name ++ scope.name ++ "var"
  | pushArray scope => "push" ++ scope.name ++ "array"
  | updateArray update scope => update.name ++ scope.name ++ "array"
  | goto => "goto"
  | branch whenTrue => if whenTrue then "ifgoto" else "ifnotgoto"
  | caseGoto => "casegoto"
  | caseGotoSorted => "casegotosorted"
  | call discard => if discard then "calldiscard" else "call"
  | returnVoid => "returnvoid"
  | returnVal => "returnval"
  | delay source => withSource "delay" source
  | tagWait direct => withDirect "tagwait" direct
  | polyWait direct => withDirect "polywait" direct
  | scriptWait direct => withDirect "scriptwait" direct
  | special argc source => withSource s!"lspec{argc.toNat}" source
  | specialResult => "lspec5result"
  | random source => withSource "random" source
  | thingCount direct => withDirect "thingcount" direct
  | lineSide => "lineside"
  | playerCount => "playercount"
  | gameType => "gametype"
  | gameSkill => "gameskill"
  | timer => "timer"
  | isNetworkGame => "isnetworkgame"
  | singlePlayer => "singleplayer"
  | playerHealth => "playerhealth"
  | playerArmorPoints => "playerarmorpoints"
  | playerFrags => "playerfrags"
  | activatorTid => "activatortid"
  | playerNumber => "playernumber"
  | playerInGame => "playeringame"
  | actorPosition axis => "getactor" ++ axis.name
  | checkInventory direct => withDirect "checkinventory" direct
  | strLen => "strlen"
  | changeFlat .floor direct => withDirect "changefloor" direct
  | changeFlat .ceiling direct => withDirect "changeceiling" direct
  | clearLineSpecial => "clearlinespecial"
  | setLineTexture => "setlinetexture"
  | setLineBlocking .all => "setlineblocking"
  | setLineBlocking .monsters => "setlinemonsterblocking"
  | setLineSpecial => "setlinespecial"
  | setGravity direct => withDirect "setgravity" direct
  | setAirControl direct => withDirect "setaircontrol" direct
  | clearInventory => "clearinventory"
  | giveInventory direct => withDirect "giveinventory" direct
  | takeInventory direct => withDirect "takeinventory" direct
  | spawn direct => withDirect "spawn" direct
  | spawnSpot direct => withDirect "spawnspot" direct
  | beginPrint => "beginprint"
  | printString => "printstring"
  | printLocalized => "printlocalized"
  | printNumber => "printnumber"
  | printCharacter => "printcharacter"
  | printFixed => "printfixed"
  | printName => "printname"
  | endPrint bold => withBold "endprint" bold
  | moreHudMessage => "morehudmessage"
  | optHudMessage => "opthudmessage"
  | endHudMessage bold => withBold "endhudmessage" bold
  | setFont direct => withDirect "setfont" direct
  | sectorSound => "sectorsound"
  | ambientSound => "ambientsound"
  | localAmbientSound => "localambientsound"
  | activatorSound => "activatorsound"
  | thingSound => "thingsound"
  | soundSequence => "soundsequence"
  | musicChange => "musicchange"
  | setMusic direct => withDirect "setmusic" direct
  | localSetMusic direct => withDirect "localsetmusic" direct
  | fadeTo => "fadeto"
  | fadeRange => "faderange"
  | cancelFade => "cancelfade"

end Opcode

end LevelScript
