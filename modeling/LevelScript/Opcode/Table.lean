import LevelScript.Opcode.Basic

/-!
# Numbers of opcodes

The numbers are fixed by the compilers that write images. They run in blocks with gaps between
them; a number in a gap is no opcode.

* `Opcode.number` is the number of an opcode, `Opcode.ofNumber?` the opcode of a number.
* `Opcode.all` lists the opcodes by their numbers.
-/

namespace LevelScript.Opcode

/-- Blocks of opcodes with consecutive numbers, each with its first number. -/
def blocks : List (Nat × List Opcode) := [
  (0, [
    .nop, .terminate, .suspend, .pushNumber, .special .one .stack, .special .two .stack,
    .special .three .stack, .special .four .stack, .special .five .stack, .special .one .words,
    .special .two .words, .special .three .words, .special .four .words, .special .five .words,
    .binary .add, .binary .subtract, .binary .multiply, .division .divide, .division .modulus,
    .binary .eq, .binary .ne, .binary .lt, .binary .gt, .binary .le, .binary .ge,
    .updateVar .assign .script, .updateVar .assign .map, .updateVar .assign .world,
    .pushVar .script, .pushVar .map, .pushVar .world, .updateVar .add .script,
    .updateVar .add .map, .updateVar .add .world, .updateVar .sub .script, .updateVar .sub .map,
    .updateVar .sub .world, .updateVar .mul .script, .updateVar .mul .map,
    .updateVar .mul .world, .updateVar .div .script, .updateVar .div .map,
    .updateVar .div .world, .updateVar .mod .script, .updateVar .mod .map,
    .updateVar .mod .world, .updateVar .inc .script, .updateVar .inc .map,
    .updateVar .inc .world, .updateVar .dec .script, .updateVar .dec .map,
    .updateVar .dec .world, .goto, .branch true, .drop, .delay .stack, .delay .words,
    .random .stack, .random .words, .thingCount false, .thingCount true, .tagWait false,
    .tagWait true, .polyWait false, .polyWait true, .changeFlat .floor false,
    .changeFlat .floor true, .changeFlat .ceiling false, .changeFlat .ceiling true, .restart,
    .binary .andLogical, .binary .orLogical, .binary .andBitwise, .binary .orBitwise,
    .binary .eorBitwise, .negateLogical, .binary .lShift, .binary .rShift, .unaryMinus,
    .branch false, .lineSide, .scriptWait false, .scriptWait true, .clearLineSpecial, .caseGoto,
    .beginPrint, .endPrint false, .printString, .printNumber, .printCharacter, .playerCount,
    .gameType, .gameSkill, .timer, .sectorSound, .ambientSound, .soundSequence, .setLineTexture,
    .setLineBlocking .all, .setLineSpecial, .thingSound, .endPrint true, .activatorSound,
    .localAmbientSound, .setLineBlocking .monsters]),
  (118, [
    .isNetworkGame]),
  (120, [
    .playerHealth, .playerArmorPoints, .playerFrags]),
  (131, [
    .printName, .musicChange]),
  (135, [
    .singlePlayer, .binary .fixedMul, .division .fixedDiv, .setGravity false, .setGravity true,
    .setAirControl false, .setAirControl true, .clearInventory, .giveInventory false,
    .giveInventory true, .takeInventory false, .takeInventory true, .checkInventory false,
    .checkInventory true, .spawn false, .spawn true, .spawnSpot false, .spawnSpot true,
    .setMusic false, .setMusic true, .localSetMusic false, .localSetMusic true, .printFixed,
    .printLocalized, .moreHudMessage, .optHudMessage, .endHudMessage false, .endHudMessage true]),
  (165, [
    .setFont false, .setFont true, .pushBytes .one, .special .one .bytes, .special .two .bytes,
    .special .three .bytes, .special .four .bytes, .special .five .bytes, .delay .bytes,
    .random .bytes, .pushByteList, .pushBytes .two, .pushBytes .three, .pushBytes .four,
    .pushBytes .five]),
  (181, [
    .updateVar .assign .global, .pushVar .global, .updateVar .add .global,
    .updateVar .sub .global, .updateVar .mul .global, .updateVar .div .global,
    .updateVar .mod .global, .updateVar .inc .global, .updateVar .dec .global, .fadeTo,
    .fadeRange, .cancelFade]),
  (196, [
    .actorPosition .x, .actorPosition .y, .actorPosition .z]),
  (203, [
    .call false, .call true, .returnVoid, .returnVal, .pushArray .map,
    .updateArray .assign .map, .updateArray .add .map, .updateArray .sub .map,
    .updateArray .mul .map, .updateArray .div .map, .updateArray .mod .map,
    .updateArray .inc .map, .updateArray .dec .map, .dup, .swap]),
  (220, [
    .sin, .cos, .vectorAngle]),
  (226, [
    .pushArray .world, .updateArray .assign .world, .updateArray .add .world,
    .updateArray .sub .world, .updateArray .mul .world, .updateArray .div .world,
    .updateArray .mod .world, .updateArray .inc .world, .updateArray .dec .world,
    .pushArray .global, .updateArray .assign .global, .updateArray .add .global,
    .updateArray .sub .global, .updateArray .mul .global, .updateArray .div .global,
    .updateArray .mod .global, .updateArray .inc .global, .updateArray .dec .global]),
  (247, [
    .playerNumber, .activatorTid]),
  (253, [
    .strLen]),
  (256, [
    .caseGotoSorted]),
  (263, [
    .specialResult]),
  (267, [
    .playerInGame])]

/-- The opcode of each number below the end of the last block. -/
def table : Array (Option Opcode) :=
  blocks.foldl
    (fun t b => t ++ Array.replicate (b.1 - t.size) none ++ (b.2.map some).toArray) #[]

def ofNumber? (n : UInt32) : Option Opcode :=
  table.getD n.toNat none

/-- All opcodes in the order of their numbers. -/
def all : List Opcode := blocks.flatMap (·.2)

def number : Opcode → UInt32
  | nop => 0
  | terminate => 1
  | suspend => 2
  | pushNumber => 3
  | special .one .stack => 4
  | special .two .stack => 5
  | special .three .stack => 6
  | special .four .stack => 7
  | special .five .stack => 8
  | special .one .words => 9
  | special .two .words => 10
  | special .three .words => 11
  | special .four .words => 12
  | special .five .words => 13
  | binary .add => 14
  | binary .subtract => 15
  | binary .multiply => 16
  | division .divide => 17
  | division .modulus => 18
  | binary .eq => 19
  | binary .ne => 20
  | binary .lt => 21
  | binary .gt => 22
  | binary .le => 23
  | binary .ge => 24
  | updateVar .assign .script => 25
  | updateVar .assign .map => 26
  | updateVar .assign .world => 27
  | pushVar .script => 28
  | pushVar .map => 29
  | pushVar .world => 30
  | updateVar .add .script => 31
  | updateVar .add .map => 32
  | updateVar .add .world => 33
  | updateVar .sub .script => 34
  | updateVar .sub .map => 35
  | updateVar .sub .world => 36
  | updateVar .mul .script => 37
  | updateVar .mul .map => 38
  | updateVar .mul .world => 39
  | updateVar .div .script => 40
  | updateVar .div .map => 41
  | updateVar .div .world => 42
  | updateVar .mod .script => 43
  | updateVar .mod .map => 44
  | updateVar .mod .world => 45
  | updateVar .inc .script => 46
  | updateVar .inc .map => 47
  | updateVar .inc .world => 48
  | updateVar .dec .script => 49
  | updateVar .dec .map => 50
  | updateVar .dec .world => 51
  | goto => 52
  | branch true => 53
  | drop => 54
  | delay .stack => 55
  | delay .words => 56
  | random .stack => 57
  | random .words => 58
  | thingCount false => 59
  | thingCount true => 60
  | tagWait false => 61
  | tagWait true => 62
  | polyWait false => 63
  | polyWait true => 64
  | changeFlat .floor false => 65
  | changeFlat .floor true => 66
  | changeFlat .ceiling false => 67
  | changeFlat .ceiling true => 68
  | restart => 69
  | binary .andLogical => 70
  | binary .orLogical => 71
  | binary .andBitwise => 72
  | binary .orBitwise => 73
  | binary .eorBitwise => 74
  | negateLogical => 75
  | binary .lShift => 76
  | binary .rShift => 77
  | unaryMinus => 78
  | branch false => 79
  | lineSide => 80
  | scriptWait false => 81
  | scriptWait true => 82
  | clearLineSpecial => 83
  | caseGoto => 84
  | beginPrint => 85
  | endPrint false => 86
  | printString => 87
  | printNumber => 88
  | printCharacter => 89
  | playerCount => 90
  | gameType => 91
  | gameSkill => 92
  | timer => 93
  | sectorSound => 94
  | ambientSound => 95
  | soundSequence => 96
  | setLineTexture => 97
  | setLineBlocking .all => 98
  | setLineSpecial => 99
  | thingSound => 100
  | endPrint true => 101
  | activatorSound => 102
  | localAmbientSound => 103
  | setLineBlocking .monsters => 104
  | isNetworkGame => 118
  | playerHealth => 120
  | playerArmorPoints => 121
  | playerFrags => 122
  | printName => 131
  | musicChange => 132
  | singlePlayer => 135
  | binary .fixedMul => 136
  | division .fixedDiv => 137
  | setGravity false => 138
  | setGravity true => 139
  | setAirControl false => 140
  | setAirControl true => 141
  | clearInventory => 142
  | giveInventory false => 143
  | giveInventory true => 144
  | takeInventory false => 145
  | takeInventory true => 146
  | checkInventory false => 147
  | checkInventory true => 148
  | spawn false => 149
  | spawn true => 150
  | spawnSpot false => 151
  | spawnSpot true => 152
  | setMusic false => 153
  | setMusic true => 154
  | localSetMusic false => 155
  | localSetMusic true => 156
  | printFixed => 157
  | printLocalized => 158
  | moreHudMessage => 159
  | optHudMessage => 160
  | endHudMessage false => 161
  | endHudMessage true => 162
  | setFont false => 165
  | setFont true => 166
  | pushBytes .one => 167
  | special .one .bytes => 168
  | special .two .bytes => 169
  | special .three .bytes => 170
  | special .four .bytes => 171
  | special .five .bytes => 172
  | delay .bytes => 173
  | random .bytes => 174
  | pushByteList => 175
  | pushBytes .two => 176
  | pushBytes .three => 177
  | pushBytes .four => 178
  | pushBytes .five => 179
  | updateVar .assign .global => 181
  | pushVar .global => 182
  | updateVar .add .global => 183
  | updateVar .sub .global => 184
  | updateVar .mul .global => 185
  | updateVar .div .global => 186
  | updateVar .mod .global => 187
  | updateVar .inc .global => 188
  | updateVar .dec .global => 189
  | fadeTo => 190
  | fadeRange => 191
  | cancelFade => 192
  | actorPosition .x => 196
  | actorPosition .y => 197
  | actorPosition .z => 198
  | call false => 203
  | call true => 204
  | returnVoid => 205
  | returnVal => 206
  | pushArray .map => 207
  | updateArray .assign .map => 208
  | updateArray .add .map => 209
  | updateArray .sub .map => 210
  | updateArray .mul .map => 211
  | updateArray .div .map => 212
  | updateArray .mod .map => 213
  | updateArray .inc .map => 214
  | updateArray .dec .map => 215
  | dup => 216
  | swap => 217
  | sin => 220
  | cos => 221
  | vectorAngle => 222
  | pushArray .world => 226
  | updateArray .assign .world => 227
  | updateArray .add .world => 228
  | updateArray .sub .world => 229
  | updateArray .mul .world => 230
  | updateArray .div .world => 231
  | updateArray .mod .world => 232
  | updateArray .inc .world => 233
  | updateArray .dec .world => 234
  | pushArray .global => 235
  | updateArray .assign .global => 236
  | updateArray .add .global => 237
  | updateArray .sub .global => 238
  | updateArray .mul .global => 239
  | updateArray .div .global => 240
  | updateArray .mod .global => 241
  | updateArray .inc .global => 242
  | updateArray .dec .global => 243
  | playerNumber => 247
  | activatorTid => 248
  | strLen => 253
  | caseGotoSorted => 256
  | specialResult => 263
  | playerInGame => 267

/-- The opcode with the given name. -/
def ofMnemonic? (name : String) : Option Opcode :=
  all.find? (·.mnemonic == name)

end LevelScript.Opcode
