import LevelScript.Snapshot.Basic

/-!
# Snapshots as bytes

The codec of each type a snapshot holds, and of the snapshot.
-/

namespace LevelScript

namespace Codec

def actor : Codec Actor :=
  (word.pair word).convert (fun a => (a.index, a.generation)) fun p => ⟨p.1, p.2⟩

def line : Codec Line := word.convert Line.number Line.mk

def side : Codec Side := enumeration [.front, .back]

def status : Codec Status where
  encode
    | .running => caseOf 0
    | .suspended => caseOf 1
    | .delayed ticks => caseOf 2 ++ word.encode ticks
    | .tagWait tag => caseOf 3 ++ int.encode tag
    | .polyWait id => caseOf 4 ++ int.encode id
    | .scriptWaitPre script => caseOf 5 ++ int.encode script
    | .scriptWait script => caseOf 6 ++ int.encode script
    | .pleaseRemove => caseOf 7
    | .divideByZero => caseOf 8
    | .modulusByZero => caseOf 9
  decode := cases 10 fun
    | 0 => some (plain .running)
    | 1 => some (plain .suspended)
    | 2 => some (part word .delayed)
    | 3 => some (part int .tagWait)
    | 4 => some (part int .polyWait)
    | 5 => some (part int .scriptWaitPre)
    | 6 => some (part int .scriptWait)
    | 7 => some (plain .pleaseRemove)
    | 8 => some (plain .divideByZero)
    | 9 => some (plain .modulusByZero)
    | _ => none

def frame : Codec Frame where
  encode
    | .script => caseOf 0
    | .stack base => caseOf 1 ++ word.encode base
  decode := cases 2 fun
    | 0 => some (plain .script)
    | 1 => some (part word .stack)
    | _ => none

def returnRecord : Codec ReturnRecord :=
  (word.pair (frame.pair (word.option.pair bool))).convert
    (fun r => (r.returnPc, r.callerFrame, r.callerFunction, r.discardResult))
    fun (returnPc, callerFrame, callerFunction, discardResult) =>
      ⟨returnPc, callerFrame, callerFunction, discardResult⟩

def slot : Codec Slot where
  encode
    | .value v => caseOf 0 ++ int.encode v
    | .record r => caseOf 1 ++ returnRecord.encode r
  decode := cases 2 fun
    | 0 => some (part int .value)
    | 1 => some (part returnRecord .record)
    | _ => none

def fingerprint : Codec Fingerprint :=
  (word.pair (block 32)).convert (fun f => (f.length, f.digest)) fun p => ⟨p.1, p.2⟩

def savedInstance : Codec SavedInstance :=
  (int.pair <| word.pair <| status.pair <| int.array.pair <| actor.option.pair <|
    line.option.pair <| side.pair <| slot.array.pair <| frame.pair <| word.option.pair <|
    text.pair <| word.option.pair <| int.pair <| long.pair bool).convert
    (fun i => (i.number, i.pc, i.status, i.locals, i.activator, i.line, i.side, i.segment,
      i.frame, i.function, i.print, i.hudMark, i.result, i.lastTick, i.tracked))
    fun (number, pc, status, locals, activator, line, side, segment, frame, function, print,
        hudMark, result, lastTick, tracked) =>
      ⟨number, pc, status, locals, activator, line, side, segment, frame, function, print,
        hudMark, result, lastTick, tracked⟩

def snapshot : Codec Snapshot :=
  (int.pair <| fingerprint.pair <| int.array.pair <| int.array.array.pair <|
    savedInstance.list.pair long).convert
    (fun s => (s.map, s.fingerprint, s.mapVars, s.mapArrays, s.instances, s.tick))
    fun (map, fingerprint, mapVars, mapArrays, instances, tick) =>
      ⟨map, fingerprint, mapVars, mapArrays, instances, tick⟩

end Codec

namespace Snapshot

def toBytes (s : Snapshot) : List UInt8 := Codec.snapshot.encode s

/-- Reads a snapshot; bytes after it are ignored. -/
def ofBytes (bytes : List UInt8) : Except SaveError Snapshot :=
  match Codec.snapshot.decode bytes with
  | .ok (s, _) => .ok s
  | .error e => .error (.decode e)

end Snapshot

end LevelScript
