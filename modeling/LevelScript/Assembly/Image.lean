import LevelScript.Assembly.Basic
import LevelScript.Image.Chunk

/-!
# Assembled images

Turns a draft into an image: labels are filled in, and the tables are written in the layout that
was asked for. A legacy image holds scripts and neutral texts only.

* `assemble` gives the image and the labels that were never bound.
-/

namespace LevelScript.Assembly

/-- Overwrites bytes from an offset on. -/
def overwrite (image : Image) (offset : Nat) (bytes : List UInt8) : Image :=
  (bytes.foldl (fun (a, i) b => (a.setIfInBounds i b, i + 1)) (image, offset)).1

namespace Draft

/-- The offset a label stands for; zero if it was never bound. -/
def labelOffset (d : Draft) (label : Label) : UInt32 := (d.labels.lookup label).getD 0

/-- Labels that jumps name and nothing binds, once for each jump. -/
def unbound (d : Draft) : List Label :=
  (d.fixups.reverse.map (·.2)).filter fun label => (d.labels.lookup label).isNone

/-- The code with the offsets of labels in it. -/
def resolved (d : Draft) : Image :=
  d.fixups.reverse.foldl
    (fun code fixup => overwrite code fixup.1 (Bytes.le32 (d.labelOffset fixup.2))) d.code

/-! ## Tables -/

def numberBytes (number : Int32) : List UInt8 := Bytes.le16 number.toInt16.toUInt16

def shortScript (s : Script) : List UInt8 :=
  numberBytes s.number ++ [s.typeTag.toUInt8, s.argCount] ++ Bytes.le32 s.entry

def longScript (s : Script) : List UInt8 :=
  numberBytes s.number ++ Bytes.le16 s.typeTag ++ Bytes.le32 s.entry ++
    Bytes.le32 s.argCount.toUInt32

def flagsRecord (s : Script) : List UInt8 :=
  if s.flags == .none then [] else numberBytes s.number ++ Bytes.le16 s.flags.bits

def localsRecord (s : Script) : List UInt8 :=
  match s.localCount with
  | some count => numberBytes s.number ++ Bytes.le16 count
  | none => []

def functionRecord (f : Function) : List UInt8 :=
  [f.argCount, f.localCount, if f.hasReturn then 1 else 0, f.importTag] ++ Bytes.le32 f.entry

def intBytes (values : List Int32) : List UInt8 :=
  values.flatMap fun v => Bytes.le32 v.toUInt32

/-- A chunk of a kind. -/
def chunk (kind : ChunkKind) (payload : List UInt8) : List UInt8 := Chunk.encode kind.id payload

/-- A chunk of a kind, unless there is nothing to put into it. -/
def chunkUnlessEmpty (kind : ChunkKind) (payload : List UInt8) : List UInt8 :=
  if payload.isEmpty then [] else chunk kind payload

/-- Offsets of literals that follow each other from a place on. -/
def literalOffsets (start : UInt32) : List (List UInt8) → List UInt32
  | [] => []
  | l :: rest => start :: literalOffsets (start + l.length.toUInt32) rest

/-- Language, count, an unused word, offsets and literals. -/
def tablePayload (encoding : Text.Encoding) (language : Language) (texts : List String) :
    List UInt8 :=
  let literals := texts.map encoding.encodeLiteral
  let start := 12 + 4 * texts.length.toUInt32
  Bytes.le32 language.word ++ Bytes.le32 texts.length.toUInt32 ++ Bytes.le32 0 ++
    (literalOffsets start literals).flatMap Bytes.le32 ++ literals.flatten

def tableChunk (encoding : Text.Encoding) (table : Language × List String) : List UInt8 :=
  if table.2.isEmpty then [] else chunk .strl (tablePayload encoding table.1 table.2)

def arrayInitChunk (a : ArrayDraft × Nat) : List UInt8 :=
  if a.1.init.isEmpty then []
  else chunk .aini (Bytes.le32 a.2.toUInt32 ++ intBytes a.1.init)

/-- All chunks of a module. -/
def chunks (d : Draft) (script : Script → List UInt8) (encoding : Text.Encoding) : List UInt8 :=
  chunk .sptr (d.scripts.flatMap script) ++
    chunkUnlessEmpty .sflg (d.scripts.flatMap flagsRecord) ++
    chunkUnlessEmpty .svct (d.scripts.flatMap localsRecord) ++
    chunkUnlessEmpty .func (d.functions.toList.flatMap functionRecord) ++
    chunkUnlessEmpty .aray (d.arrays.flatMap fun a => Bytes.le32 a.slot ++ Bytes.le32 a.size) ++
    d.arrays.zipIdx.flatMap arrayInitChunk ++
    d.mapInits.flatMap (fun m => chunk .mini (Bytes.le32 m.1 ++ intBytes m.2)) ++
    d.tables.flatMap (tableChunk encoding)

/-! ## Layouts -/

/-- `ACS` and a tag, then a word. -/
def withHeader (image : Image) (tag : UInt8) (w : UInt32) : Image :=
  overwrite image 0 ([0x41, 0x43, 0x53, tag] ++ Bytes.le32 w)

def widthTag : CodeWidth → UInt8
  | .wide => 0x45
  | .compact => 0x65

/-- Code, neutral texts, and the directory of both. -/
def legacyImage (d : Draft) (encoding : Text.Encoding) : Image :=
  let code := d.resolved
  let texts := (d.tables.head?.map (·.2)).getD []
  let literals := texts.map encoding.encodeLiteral
  let withTexts := code ++ literals.flatten
  let record (s : Script) : List UInt8 :=
    Bytes.le32 (s.typeTag.toUInt32 * 1000 + s.number.toUInt32) ++
      Bytes.le32 s.argCount.toUInt32 ++ Bytes.le32 s.entry
  let directory := Bytes.le32 d.scripts.length.toUInt32 ++ d.scripts.flatMap record ++
    Bytes.le32 literals.length.toUInt32 ++
    (literalOffsets code.size.toUInt32 literals).flatMap Bytes.le32
  withHeader (withTexts ++ directory) 0 withTexts.size.toUInt32

/-- Code, the offset of the chunks, a tag, an empty directory, and the chunks. -/
def legacyChunkedImage (d : Draft) (encoding : Text.Encoding) (width : CodeWidth) : Image :=
  let code := d.resolved
  let link := Bytes.le32 (code.size.toUInt32 + 16) ++ [0x41, 0x43, 0x53, widthTag width]
  withHeader (code ++ link ++ (Bytes.le32 0 ++ Bytes.le32 0) ++ d.chunks shortScript encoding) 0
    (code.size.toUInt32 + 8)

/-- Code and the chunks. -/
def enhancedImage (d : Draft) (encoding : Text.Encoding) (width : CodeWidth) : Image :=
  let code := d.resolved
  withHeader (code ++ d.chunks longScript encoding) (widthTag width) code.size.toUInt32

def image (d : Draft) (encoding : Text.Encoding) : Layout → Image
  | .legacy => d.legacyImage encoding
  | .legacyChunked width => d.legacyChunkedImage encoding width
  | .enhanced width => d.enhancedImage encoding width

end Draft

/-- The image of declarations, with a report on each jump to a label that is never bound. -/
def assemble (layout : Layout) (encoding : Text.Encoding) (declarations : List Declaration) :
    Image × List Diagnostic :=
  let d := Draft.ofDeclarations layout.codeWidth declarations
  (d.image encoding layout, d.unbound.map .labelNeverBound)

end LevelScript.Assembly
