import LevelScript.Proofs.Assembly.Tokens
import LevelScript.Proofs.Image.Bytes
import LevelScript.Proofs.Instruction.Reading

/-!
# Assembled instructions are read back

Code of whole instructions: every opcode is followed by the operands of its layout, and what jumps
name are labels. Where the bytes of such an instruction stand in an image, reading gives the
instruction.

* `Token.Fills`: tokens are the operands for the places after an opcode.
* `Token.Whole`: tokens are whole instructions.
* `Token.read_of_fills`: operands are read back.
-/

namespace LevelScript

/-! ## Reading numbers -/

namespace Code

variable {image : Image} {place : Nat}

/-- The two bytes of a compact number from 240 on. -/
theorem compactNumber {number : UInt32} (hlow : ¬ number < 240) (hhigh : number ≤ 4335) :
    let b₀ : UInt8 := ((240 : UInt32) + ((number - 240) >>> 8)).toUInt8
    let b₁ : UInt8 := (number - 240).toUInt8
    ¬ b₀ < 240 ∧ (240 : UInt32) + ((b₀.toUInt32 - 240) <<< 8) + b₁.toUInt32 = number := by
  have hlow' : ¬ number.toNat < 240 := fun h => hlow (UInt32.lt_iff_toNat_lt.mpr h)
  have hhigh' : number.toNat ≤ 4335 := UInt32.le_iff_toNat_le.mp hhigh
  have hrest : (number - 240).toNat = number.toNat - 240 :=
    UInt32.toNat_sub_of_le _ _ (UInt32.le_iff_toNat_le.mpr (by simpa using hlow'))
  have hb₀ : ((240 : UInt32) + ((number - 240) >>> 8)).toUInt8.toNat =
      240 + (number.toNat - 240) / 256 := by
    simp [hrest, Nat.shiftRight_eq_div_pow]
    omega
  have hb₁ : (number - 240).toUInt8.toNat = (number.toNat - 240) % 256 := by
    rw [UInt32.toNat_toUInt8, hrest]
  intro b₀ b₁
  refine ⟨fun h => ?_, ?_⟩
  · have hlt : b₀.toNat < 240 := UInt8.lt_iff_toNat_lt.mp h
    rw [hb₀] at hlt
    omega
  · have hb₀' : (b₀.toUInt32 - 240).toNat = (number.toNat - 240) / 256 := by
      rw [UInt32.toNat_sub_of_le, UInt8.toNat_toUInt32, hb₀]
      · simp
      · rw [UInt32.le_iff_toNat_le, UInt8.toNat_toUInt32, hb₀]
        simp
    have hb₁' : b₁.toUInt32.toNat = (number.toNat - 240) % 256 := by
      rw [UInt8.toNat_toUInt32, hb₁]
    apply UInt32.toNat_inj.mp
    rw [UInt32.toNat_add, UInt32.toNat_add, UInt32.toNat_shiftLeft, hb₀', hb₁', Nat.shiftLeft_eq,
      show (240 : UInt32).toNat = 240 from rfl, show (8 : UInt32).toNat % 32 = 8 from rfl]
    omega

variable (hsize : image.size < 2 ^ 32)

include hsize

theorem readWord_of_stands {v : UInt32} (h : image.Stands place (Bytes.le32 v)) :
    readWord image place.toUInt32 = .ok (v, (place + 4).toUInt32) := by
  have hle := h.le (by simp [Bytes.le32])
  rw [readWord, toNat_place (by omega), Image.word?_of_stands h, place_add]
  rfl

theorem readRaw_of_stands {b : UInt8} (h : image.Stands place [b]) :
    readRaw image place.toUInt32 = .ok (b, (place + 1).toUInt32) := by
  have hle := h.le (by simp)
  have hb : image[place]? = some b := h.getElem? (i := 0) (by simp)
  rw [List.length_singleton] at hle
  rw [readRaw, toNat_place (by omega), hb, place_add]
  rfl

theorem readIndex_of_stands {width : CodeWidth} {v : UInt32} (hv : width = .compact → v ≤ 255)
    (h : image.Stands place (Assembly.Draft.indexBytes width v)) :
    readIndex width image place.toUInt32 =
      .ok (v, (place + (Assembly.Draft.indexBytes width v).length).toUInt32) := by
  cases width with
  | wide => exact readWord_of_stands hsize h
  | compact =>
    have hbyte : v.toUInt8.toUInt32 = v := by
      apply UInt32.toNat_inj.mp
      have hle : v.toNat ≤ 255 := UInt32.le_iff_toNat_le.mp (hv rfl)
      rw [UInt8.toNat_toUInt32, UInt32.toNat_toUInt8]
      omega
    rw [readIndex, readRaw_of_stands hsize h]
    simp only [Except.map, hbyte]
    rfl

theorem readNumber_of_stands {width : CodeWidth} {number : UInt32}
    (hnumber : width = .compact → number ≤ 4335)
    (h : image.Stands place (Assembly.Draft.opcodeBytes width number)) :
    readNumber width image place.toUInt32 =
      .ok (number, (place + (Assembly.Draft.opcodeBytes width number).length).toUInt32) := by
  cases width with
  | wide => exact readWord_of_stands hsize h
  | compact =>
    unfold Assembly.Draft.opcodeBytes at h ⊢
    by_cases hlow : number < 240
    · have hlow' : number.toNat < 240 := UInt32.lt_iff_toNat_lt.mp hlow
      have hbyte : number.toUInt8.toNat = number.toNat := by
        rw [UInt32.toNat_toUInt8]
        omega
      have hlt : number.toUInt8 < 240 := UInt8.lt_iff_toNat_lt.mpr (hbyte ▸ hlow')
      have hsame : number.toUInt8.toUInt32 = number :=
        UInt32.toNat_inj.mp (by rw [UInt8.toNat_toUInt32, hbyte])
      simp only [if_pos hlow] at h ⊢
      rw [readNumber, readRaw_of_stands hsize h]
      simp only [bind, Except.bind, if_pos hlt, hsame]
      rfl
    · obtain ⟨hfirst, hsame⟩ := compactNumber hlow (hnumber rfl)
      simp only [if_neg hlow] at h ⊢
      rw [← List.singleton_append] at h
      obtain ⟨h₀, h₁⟩ := Image.stands_append.mp h
      have hsecond := readRaw_of_stands hsize h₁
      rw [List.length_singleton] at hsecond
      rw [readNumber, readRaw_of_stands hsize h₀]
      simp only [bind, Except.bind, if_neg hfirst, hsecond, hsame]
      rfl

end Code

/-! ## Operands -/

namespace Assembly

/-- What stands after an opcode. Layouts do not tell offsets from other words. -/
inductive Place where
  | word
  | target
  | index
  | raw
  | rawList
  | cases
  deriving DecidableEq, Repr

def Place.kind : Place → OperandKind
  | word | target => .word
  | index => .index
  | raw => .raw
  | rawList => .rawList
  | cases => .caseTable

/-- The place for an operand that is no offset. -/
def Place.ofKind : OperandKind → Place
  | .word => word
  | .index => index
  | .raw => raw
  | .rawList => rawList
  | .caseTable => cases

/-- The places after an opcode. Jumps have offsets. -/
def places : Opcode → List Place
  | .goto | .branch _ => [.target]
  | .caseGoto => [.word, .target]
  | op => op.layout.map .ofKind

theorem places_kind (op : Opcode) : (places op).map Place.kind = op.layout := by
  have hkind : ∀ kinds : List OperandKind, (kinds.map Place.ofKind).map Place.kind = kinds := by
    intro kinds
    rw [List.map_map]
    exact List.map_id'' (fun kind => by cases kind <;> rfl) kinds
  cases op <;> first | rfl | exact hkind _

namespace Token

/-- The tokens are operands for the places. -/
inductive Fills : List Place → List Token → Prop
  | nil : Fills [] []
  | word {ps ts} (v : Int32) (h : Fills ps ts) : Fills (.word :: ps) (.word v :: ts)
  | target {ps ts} (label : Label) (h : Fills ps ts) :
      Fills (.target :: ps) (.target label :: ts)
  | index {ps ts} (v : UInt32) (small : v ≤ 255) (h : Fills ps ts) :
      Fills (.index :: ps) (.index v :: ts)
  | raw {ps ts} (v : UInt8) (h : Fills ps ts) : Fills (.raw :: ps) (.byte v :: ts)
  | rawList {ps ts} (vs : List UInt8) (short : vs.length ≤ 255) (h : Fills ps ts) :
      Fills (.rawList :: ps) (.byte vs.length.toUInt8 :: (vs.map .byte ++ ts))
  | cases {ps ts} (entries : List (Int32 × Label)) (h : Fills ps ts) :
      Fills (.cases :: ps)
        (.align :: .word (Int32.ofNat entries.length) :: (entries.flatMap entry ++ ts))

/-- The tokens are whole instructions. A number that is no opcode has no operands. -/
inductive Whole : List Token → Prop
  | nil : Whole []
  | unknown {number : UInt32} (small : number ≤ 4335) (opcode : Opcode.ofNumber? number = none)
      {rest : List Token} (h : Whole rest) : Whole (.opcode number :: rest)
  | known {number : UInt32} {op : Opcode} (small : number ≤ 4335)
      (opcode : Opcode.ofNumber? number = some op) {operands rest : List Token}
      (fills : Fills (places op) operands) (h : Whole rest) :
      Whole (.opcode number :: (operands ++ rest))

theorem Whole.append {xs ys : List Token} (h : Whole xs) (h' : Whole ys) : Whole (xs ++ ys) := by
  induction h with
  | nil => exact h'
  | unknown small opcode _ ih => exact .unknown small opcode ih
  | known small opcode fills _ ih =>
    rw [List.cons_append, List.append_assoc]
    exact .known small opcode fills ih

/-- What reading a token gives. -/
def values (labels : Label → UInt32) : Token → List Int32
  | word v => [v]
  | byte v => [v.toUInt32.toInt32]
  | index v => [v.toInt32]
  | target label => [(labels label).toInt32]
  | opcode _ | align => []

/-- The token is read as one number, wherever it stands. -/
def ReadBy (image : Image) (width : CodeWidth) (labels : Label → UInt32)
    (read : UInt32 → Except Fault (UInt32 × UInt32)) (t : Token) : Prop :=
  ∀ place, image.Stands place (t.bytes width labels place) → ∃ v : UInt32,
    t.values labels = [v.toInt32] ∧
      read place.toUInt32 = .ok (v, (place + t.size width place).toUInt32)

section Reading

variable {image : Image} {width : CodeWidth} {labels : Label → UInt32} {place : Nat}

theorem appendList_assoc (acc : Array Int32) (xs ys : List Int32) :
    acc ++ xs ++ ys = acc ++ (xs ++ ys) := by
  apply Array.toList_inj.mp
  simp

theorem ReadBy.add {read : UInt32 → Except Fault (UInt32 × UInt32)} {t : Token}
    (ht : t.ReadBy image width labels read) (h : image.Stands place (t.bytes width labels place))
    (acc : Array Int32) : Operands.add ⟨acc, place.toUInt32, none⟩ (read place.toUInt32) =
      ⟨acc ++ t.values labels, (place + t.size width place).toUInt32, none⟩ := by
  obtain ⟨v, hvalues, hread⟩ := ht place h
  rw [hread, hvalues, Operands.add]
  simp

/-- Numbers are read one after another. -/
theorem readMany_tokens {read : UInt32 → Except Fault (UInt32 × UInt32)} {ts : List Token}
    (hts : ∀ t ∈ ts, t.ReadBy image width labels read)
    (h : image.Stands place (spell width labels place ts)) (acc : Array Int32) :
    Operands.readMany read ts.length ⟨acc, place.toUInt32, none⟩ =
      ⟨acc ++ ts.flatMap (values labels), (reach width place ts).toUInt32, none⟩ := by
  induction ts generalizing place acc with
  | nil => simp [Operands.readMany, reach]
  | cons t rest ih =>
    rw [spell, Image.stands_append, length_bytes] at h
    have hrest := ih (fun t ht => hts t (List.mem_cons_of_mem _ ht)) h.2 (acc ++ t.values labels)
    have hfirst := (hts t List.mem_cons_self).add h.1 acc
    rw [List.length_cons, Operands.readMany]
    simp only [hfirst]
    rw [hrest, appendList_assoc]
    rfl

/-- Reading for a place gives what the tokens stand for, wherever they stand. -/
def Reads (image : Image) (width : CodeWidth) (labels : Label → UInt32) (p : Place)
    (ts : List Token) : Prop :=
  ∀ place acc, image.Stands place (spell width labels place ts) →
    Operands.readKind width image ⟨acc, place.toUInt32, none⟩ p.kind =
      ⟨acc ++ ts.flatMap (values labels), (reach width place ts).toUInt32, none⟩

theorem reads_one {p : Place} {t : Token} {read : UInt32 → Except Fault (UInt32 × UInt32)}
    (ht : t.ReadBy image width labels read)
    (hp : ∀ ops : Operands, Operands.readKind width image ops p.kind = ops.add (read ops.next)) :
    Reads image width labels p [t] := by
  intro place acc h
  rw [spell, spell, List.append_nil] at h
  rw [hp, ht.add h acc, List.flatMap_singleton]
  rfl

/-- Reading for places, one after the other. -/
def readPlaces (image : Image) (width : CodeWidth) (ps : List Place) (ops : Operands) : Operands :=
  (ps.map Place.kind).foldl
    (fun ops kind => if ops.fault.isSome then ops else Operands.readKind width image ops kind) ops

/-- Reading for places gives what the tokens stand for, wherever they stand. -/
def ReadsAll (image : Image) (width : CodeWidth) (labels : Label → UInt32) (ps : List Place)
    (ts : List Token) : Prop :=
  ∀ place acc, image.Stands place (spell width labels place ts) →
    readPlaces image width ps ⟨acc, place.toUInt32, none⟩ =
      ⟨acc ++ ts.flatMap (values labels), (reach width place ts).toUInt32, none⟩

theorem Reads.cons {p : Place} {ps : List Place} {xs ts : List Token}
    (hxs : Reads image width labels p xs) (hts : ReadsAll image width labels ps ts) :
    ReadsAll image width labels (p :: ps) (xs ++ ts) := by
  intro place acc h
  rw [spell_append, Image.stands_append, length_spell] at h
  have hrest := hts _ (acc ++ xs.flatMap (values labels)) h.2
  rw [appendList_assoc, ← List.flatMap_append, ← reach_append] at hrest
  rw [← hrest, ← hxs place acc h.1]
  rfl

theorem length_spell_entries (entries : List (Int32 × Label)) :
    (spell width labels place (entries.flatMap entry)).length = entries.length * 8 := by
  induction entries generalizing place with
  | nil => rfl
  | cons e rest ih =>
    rw [List.flatMap_cons, spell_append, List.length_append, ih, List.length_cons]
    simp only [entry, spell, bytes, List.length_append, Bytes.length_le32, List.length_nil]
    omega

theorem length_flatMap_entry (entries : List (Int32 × Label)) :
    (entries.flatMap entry).length = entries.length * 2 := by
  rw [List.length_flatMap]
  simp [entry]

variable (hsize : image.size < 2 ^ 32)
include hsize

theorem readBy_word (v : Int32) :
    (word v).ReadBy image width labels (Code.readWord image) :=
  fun _ h => ⟨v.toUInt32, rfl, Code.readWord_of_stands hsize h⟩

theorem readBy_target (label : Label) :
    (target label).ReadBy image width labels (Code.readWord image) :=
  fun _ h => ⟨labels label, rfl, Code.readWord_of_stands hsize h⟩

theorem readBy_index {v : UInt32} (hv : width = .compact → v ≤ 255) :
    (index v).ReadBy image width labels (Code.readIndex width image) :=
  fun _ h => ⟨v, rfl, Code.readIndex_of_stands hsize hv h⟩

theorem readBy_byte (v : UInt8) :
    (byte v).ReadBy image width labels (Operands.rawAsWord image) := by
  intro place h
  refine ⟨v.toUInt32, rfl, ?_⟩
  rw [Operands.rawAsWord, Code.readRaw_of_stands hsize h]
  rfl

theorem reads_rawList {vs : List UInt8} (hvs : vs.length ≤ 255) :
    Reads image width labels .rawList (.byte vs.length.toUInt8 :: vs.map .byte) := by
  intro place acc h
  rw [spell, Image.stands_append, length_bytes] at h
  have hcount : vs.length.toUInt8.toNat = (vs.map Token.byte).length := by
    rw [List.length_map]
    exact UInt8.toNat_ofNat_of_lt' (show vs.length < 256 by omega)
  have hbytes : ∀ t ∈ vs.map Token.byte, t.ReadBy image width labels
      (Operands.rawAsWord image) := by
    intro t ht
    obtain ⟨v, -, rfl⟩ := List.mem_map.mp ht
    exact readBy_byte hsize v
  have hraw := Code.readRaw_of_stands hsize h.1
  have hmany := readMany_tokens hbytes h.2 (acc ++ [vs.length.toUInt8.toUInt32.toInt32])
  rw [appendList_assoc] at hmany
  show Operands.readKind width image _ .rawList = _
  simp only [Operands.readKind, hraw, hcount, Operands.add]
  exact hmany

theorem reads_cases (entries : List (Int32 × Label)) :
    Reads image width labels .cases
      (.align :: .word (Int32.ofNat entries.length) :: entries.flatMap entry) := by
  intro place acc h
  rw [spell, Image.stands_append, spell, Image.stands_append, length_bytes, length_bytes] at h
  obtain ⟨-, hcount, hentries⟩ := h
  -- The table starts at the next multiple of four.
  obtain ⟨base, hbase⟩ : ∃ base, place + align.size width place = base := ⟨_, rfl⟩
  have halign : Code.align place.toUInt32 = base.toUInt32 := by
    rw [Code.align_place, ← hbase, size, bytes, List.length_replicate]
  rw [hbase] at hcount hentries
  have hword := Code.readWord_of_stands hsize hcount
  have hle : base + 4 ≤ image.size := hcount.le (by simp [bytes, Bytes.le32])
  have hroom : base + 4 + entries.length * 8 ≤ image.size := by
    obtain rfl | hne := eq_or_ne entries []
    · simpa using hle
    · have hspell : (spell width labels (base + 4) (entries.flatMap entry)).length =
          entries.length * 8 := length_spell_entries entries
      have hpos := List.length_pos_iff.mpr hne
      have hspell' : spell width labels (base + 4) (entries.flatMap entry) ≠ [] :=
        List.length_pos_iff.mp (by omega)
      rw [← hspell]
      exact hentries.le hspell'
  have hnat : (Int32.ofNat entries.length).toUInt32.toNat = entries.length :=
    UInt32.toNat_ofNat_of_lt' (show entries.length < 2 ^ 32 by omega)
  have htable : Code.caseTable image place.toUInt32 =
      .ok (base.toUInt32, (Int32.ofNat entries.length).toUInt32) := by
    have hstart := Code.toNat_place (show base + 4 < 2 ^ 32 by omega)
    simp only [Code.caseTable, halign, bind, Except.bind, hword, hstart, hnat]
    rw [if_neg (by omega)]
    rfl
  have hreads : ∀ t ∈ entries.flatMap entry, t.ReadBy image width labels
      (Code.readWord image) := by
    intro t ht
    obtain ⟨e, -, he⟩ := List.mem_flatMap.mp ht
    obtain rfl | rfl : t = .word e.1 ∨ t = .target e.2 := by simpa [entry] using he
    · exact readBy_word hsize _
    · exact readBy_target hsize _
  have hmany := readMany_tokens hreads hentries (acc ++ [Int32.ofNat entries.length])
  rw [appendList_assoc, length_flatMap_entry] at hmany
  show Operands.readKind width image _ .caseTable = _
  simp only [Operands.readKind, htable, hnat, Operands.add]
  have hnext : base.toUInt32 + 4 = (base + 4).toUInt32 := (Code.place_add 4).symm
  have hreach : reach width place
      (.align :: .word (Int32.ofNat entries.length) :: entries.flatMap entry) =
      reach width (base + 4) (entries.flatMap entry) := by
    rw [← hbase]
    rfl
  rw [hreach, hnext]
  exact hmany

theorem readsAll_of_fills {ps : List Place} {ts : List Token}
    (h : Fills ps ts) : ReadsAll image width labels ps ts := by
  induction h with
  | nil =>
    intro place acc _
    simp [readPlaces, reach]
  | word v _ ih => exact (reads_one (readBy_word hsize v) fun _ => rfl).cons ih
  | target label _ ih => exact (reads_one (readBy_target hsize label) fun _ => rfl).cons ih
  | index v small _ ih => exact (reads_one (readBy_index hsize fun _ => small) fun _ => rfl).cons ih
  | raw v _ ih => exact (reads_one (readBy_byte hsize v) fun _ => rfl).cons ih
  | rawList vs short _ ih => exact (reads_rawList hsize short).cons ih
  | cases entries _ ih => exact (reads_cases hsize entries).cons ih

/-- The operands of an opcode are read back. -/
theorem read_of_fills {op : Opcode} {ts : List Token}
    (h : Fills (places op) ts) (hstands : image.Stands place (spell width labels place ts)) :
    Operands.read width image op.layout place.toUInt32 =
      ⟨(ts.flatMap (values labels)).toArray, (reach width place ts).toUInt32, none⟩ := by
  have hread := readsAll_of_fills hsize h place #[] hstands
  rw [readPlaces, places_kind] at hread
  rw [Operands.read, hread]
  simp

end Reading

end Token

end Assembly

end LevelScript
