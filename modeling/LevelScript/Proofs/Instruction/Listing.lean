import Mathlib.Data.List.Chain
import LevelScript.Listing
import LevelScript.Proofs.Image.Accepted
import LevelScript.Proofs.Instruction.Longer

/-!
# Listings tile the code

A listing has a body for each script and each function with code, by address. A body is the
instructions that can be read one after another from its entry up to its limit: the next entry, or
the end of the code for those bodies that have no entry after them, which also stop behind the
first instruction that does not go on.

* `Listing.Limit`: the limit of a body.
* `Listing.Tiles`: instructions that tile the code from an entry to a limit.
* `Listing.Shows`: the row of an instruction.
* `Listing.tiles_decodeRows`: the instructions that are listed tile the code, and the rows show
  them. Reading always moves on, so that the number of steps is enough.
* `Listing.bodies_tile_code`: the whole listing of an accepted image.
-/

namespace LevelScript.Listing

/-! ## What is listed -/

/-- What a body is the code of. -/
def Body.start (b : Body) : Start := ⟨b.kind, b.id, b.address, b.argCount⟩

def ofScript (s : Script) : Start := ⟨.script, s.number, s.entry, s.argCount⟩

/-- A function is known by its place in the table. -/
def ofFunction (f : Function × Nat) : Start :=
  ⟨.function, Int32.ofNat f.2, f.1.entry, f.1.argCount⟩

/-- What has code: each script, then each function that is not imported, as their tables have
them. -/
def declared (p : Program) : List Start :=
  p.scripts.map ofScript ++
    (p.functions.toList.zipIdx.filter fun f => !f.1.isImported).map ofFunction

/-- How many bytes lie between the code and what the header leads to: a legacy image with chunks
has the offset of the chunks and a tag there. -/
def linkSize : Layout → Nat
  | .legacyChunked _ => 8
  | .legacy | .enhanced _ => 0

/-- The limit of a body with an entry, and whether no entry comes after it. The code ends where the
header word says, in the image. -/
inductive Limit (p : Program) (entry : UInt32) : UInt32 → Bool → Prop
  | next {t : Start} (mem : t ∈ declared p) (after : entry < t.entry)
      (least : ∀ u ∈ declared p, entry < u.entry → t.entry ≤ u.entry) :
    Limit p entry t.entry false
  | codeEnd {word stop : UInt32} (none_after : ∀ u ∈ declared p, u.entry ≤ entry)
      (header : p.image.Stands 4 (Bytes.le32 word))
      (area : stop.toNat = min (word.toNat - linkSize p.layout) p.image.size) :
    Limit p entry stop true

/-- Control never goes on to the instruction behind. -/
def Exits (i : Instruction) : Prop :=
  ∃ op ∈ i.opcode, op ∈ [Opcode.terminate, .restart, .goto, .returnVoid, .returnVal]

/-- The offset behind instructions that start at an entry. -/
def stopOf (entry : UInt32) (insts : List Instruction) : UInt32 :=
  (insts.getLast?.map Instruction.next).getD entry

/-- The instructions tile the code from an entry on: each starts where the one before it ends, and
all of them below the limit. They stop at the limit, where no instruction can be read, or, in a
last body, behind the first one that ends a block. -/
structure Tiles (p : Program) (entry limit : UInt32) (last : Bool) (insts : List Instruction) :
    Prop where
  decoded : ∀ i ∈ insts, Instruction.decode p.codeWidth p.image i.offset = .ok i
  below : ∀ i ∈ insts, i.offset < limit
  first : ∀ i ∈ insts.head?, i.offset = entry
  adjoining : insts.IsChain fun i k => k.offset = i.next
  passes : last = true → ∀ i ∈ insts.dropLast, ¬ Exits i
  stops : limit ≤ stopOf entry insts ∨
    (∃ f, Instruction.decode p.codeWidth p.image (stopOf entry insts) = .error f) ∨
    (last = true ∧ ∃ i ∈ insts.getLast?, Exits i)

/-- An offset in hexadecimal, with capital digits. -/
def offsetText (offset : UInt32) : String :=
  "0x" ++ String.ofList ((Nat.toDigits 16 offset.toNat).map Char.toUpper)

/-- Opcodes whose operands are neither offsets nor functions. -/
def isPlain : Opcode → Bool
  | .goto | .branch _ | .caseGoto | .caseGotoSorted | .call _ => false
  | _ => true

/-- The row of an instruction: where it is, its name, and its operands. Those that are offsets are
in hexadecimal, and all others are numbers with their signs. -/
inductive Shows (i : Instruction) : Row → Prop
  | unknown (opcode : i.opcode = none) (operands : i.operands = #[]) :
    Shows i ⟨i.offset, "unknown_" ++ toString i.number.toNat, []⟩
  | goto {target : UInt32} (opcode : i.opcode = some .goto)
      (operands : i.operands = #[target.toInt32]) :
    Shows i ⟨i.offset, "goto", [offsetText target]⟩
  | branch {whenTrue : Bool} {target : UInt32} (opcode : i.opcode = some (.branch whenTrue))
      (operands : i.operands = #[target.toInt32]) :
    Shows i ⟨i.offset, if whenTrue then "ifgoto" else "ifnotgoto", [offsetText target]⟩
  | caseGoto {value : Int32} {target : UInt32} (opcode : i.opcode = some .caseGoto)
      (operands : i.operands = #[value, target.toInt32]) :
    Shows i ⟨i.offset, "casegoto", [toString value.toInt, offsetText target]⟩
  | caseGotoSorted {entries : List (Int32 × UInt32)} (opcode : i.opcode = some .caseGotoSorted)
      (operands : i.operands = Exec.caseOperands entries) :
    Shows i ⟨i.offset, "casegotosorted",
      entries.map fun e => toString e.1.toInt ++ ":" ++ offsetText e.2⟩
  | call {discard : Bool} {index : Int32} (opcode : i.opcode = some (.call discard))
      (operands : i.operands = #[index]) :
    Shows i ⟨i.offset, if discard then "calldiscard" else "call", ["fn" ++ toString index.toInt]⟩
  | plain {op : Opcode} (opcode : i.opcode = some op) (plain : isPlain op = true) :
    Shows i ⟨i.offset, op.mnemonic, i.operands.toList.map fun v => toString v.toInt⟩

/-! ## Rows -/

section

variable {width : CodeWidth} {image : Image}

theorem exists_digitChar_of_mem {c : Char} {n : Nat} (h : c ∈ Nat.toDigits 16 n) :
    ∃ d < 16, c = Nat.digitChar d := by
  induction n using Nat.strongRecOn with
  | ind n ih =>
    by_cases hlt : n < 16
    · rw [Nat.toDigits_of_lt_base hlt, List.mem_singleton] at h
      exact ⟨n, hlt, h⟩
    · rw [Nat.toDigits_of_base_le (by omega) (by omega), List.mem_append,
        List.mem_singleton] at h
      rcases h with h | rfl
      · exact ih (n / 16) (by omega) h
      · exact ⟨n % 16, by omega, rfl⟩

theorem upperHex_eq (n : Nat) :
    Text.upperHex n = String.ofList ((Nat.toDigits 16 n).map Char.toUpper) := by
  have hdigit : ∀ d < 16, (if (Nat.digitChar d).isDigit then Nat.digitChar d
      else Text.hexDigit 'A' ((Nat.digitChar d).toNat - 'a'.toNat + 10)) =
        (Nat.digitChar d).toUpper := by decide
  rw [Text.upperHex, Text.hexDigits, Nat.zero_sub, List.replicate_zero, List.nil_append]
  congr 1
  refine List.map_congr_left fun c hc => ?_
  obtain ⟨d, hd, rfl⟩ := exists_digitChar_of_mem hc
  exact hdigit d hd

theorem addressText_eq (v : Int32) : addressText v = offsetText v.toUInt32 := by
  rw [addressText, upperHex_eq]
  rfl

/-- A number that can be read is the last operand so far. -/
theorem exists_push_of_add (ops : Operands) {r : Except Fault (UInt32 × UInt32)}
    {operands : Array Int32} {next : UInt32} (h : ops.add r = ⟨operands, next, none⟩) :
    ∃ v, operands = ops.values.push v := by
  cases r with
  | error f => cases congrArg Operands.fault h
  | ok r => exact ⟨r.1.toInt32, (congrArg Operands.values h).symm⟩

/-- The operands of a case jump that can be read. -/
theorem exists_pair_of_read {pc next : UInt32} {operands : Array Int32}
    (h : Operands.read width image Opcode.caseGoto.layout pc = ⟨operands, next, none⟩) :
    ∃ v w, operands = #[v, w] := by
  cases hvalue : Code.readWord image pc with
  | error f => simp [Opcode.layout, Operands.read, Operands.readKind, Operands.add, hvalue] at h
  | ok r =>
    have hread : Operands.read width image Opcode.caseGoto.layout pc =
        Operands.add ⟨#[r.1.toInt32], r.2, none⟩ (Code.readWord image r.2) := by
      simp [Opcode.layout, Operands.read, Operands.readKind, Operands.add, hvalue]
    exact ⟨_, exists_push_of_add _ (hread.symm.trans h)⟩

/-- Words in pairs are the operands of cases. -/
theorem exists_pairs {n : Nat} (vs : List Int32) (h : vs.length = 2 * n) :
    ∃ entries : List (Int32 × UInt32),
      entries.length = n ∧ vs = entries.flatMap fun e => [e.1, e.2.toInt32] := by
  induction n generalizing vs with
  | zero => exact ⟨[], rfl, List.length_eq_zero_iff.mp h⟩
  | succ n ih =>
    obtain ⟨v, vs, rfl⟩ := List.exists_cons_of_length_pos (l := vs) (by omega)
    rw [List.length_cons] at h
    obtain ⟨w, rest, rfl⟩ := List.exists_cons_of_length_pos (l := vs) (by omega)
    rw [List.length_cons] at h
    obtain ⟨entries, hlength, rfl⟩ := ih rest (by omega)
    exact ⟨(v, w.toUInt32) :: entries, by simp [hlength], by simp⟩

theorem caseTexts_pairs (entries : List (Int32 × UInt32)) :
    caseTexts (entries.flatMap fun e => [e.1, e.2.toInt32]) =
      entries.map fun e => toString e.1.toInt ++ ":" ++ offsetText e.2 := by
  induction entries with
  | nil => rfl
  | cons e rest ih =>
    rw [List.map_cons, ← ih]
    exact congrArg (· :: _) (congrArg _ (addressText_eq e.2.toInt32))

/-- The operands of a sorted case jump that can be read are those of its cases. -/
theorem exists_caseOperands {pc next : UInt32} {operands : Array Int32}
    (h : Operands.read width image Opcode.caseGotoSorted.layout pc = ⟨operands, next, none⟩) :
    ∃ entries, operands = Exec.caseOperands entries := by
  cases htable : Code.caseTable image pc with
  | error f =>
    have hfault : (Operands.readKind width image ⟨#[], pc, none⟩ .caseTable).fault = none :=
      congrArg Operands.fault h
    simp [Operands.readKind, htable] at hfault
  | ok r =>
    obtain ⟨-, -, hcount, hsize, -⟩ := Operands.read_caseTable width htable
    rw [h] at hcount hsize
    obtain ⟨vs⟩ := operands
    cases vs with
    | nil => simp at hsize; omega
    | cons v vs =>
      obtain ⟨entries, hlength, rfl⟩ :=
        exists_pairs (n := r.2.toNat) vs (by simpa [Nat.add_comm 1] using hsize)
      have hv : v = Int32.ofNat entries.length := by
        rw [hlength, ← hcount]
        apply Int32.toBitVec_inj.mp
        simp
      exact ⟨entries, by rw [Exec.caseOperands, hv]⟩

theorem operandTexts_of_plain {op : Opcode} (h : isPlain op = true) (vs : List Int32) :
    operandTexts op vs = vs.map fun v => toString v.toInt := by
  unfold operandTexts
  split
  case h_6 => rfl
  all_goals cases h

theorem shows_row {offset : UInt32} {i : Instruction}
    (h : Instruction.decode width image offset = .ok i) : Shows i (row i) := by
  obtain ⟨pc, -, -, hopcode, hread⟩ := Instruction.decode_eq_ok_iff.mp h
  rw [Instruction.layoutOf, ← hopcode] at hread
  obtain ⟨offset, number, opcode, operands, next⟩ := i
  dsimp only at hread
  cases opcode with
  | none =>
    cases hread
    exact .unknown rfl rfl
  | some op =>
    rw [Option.map_some, Option.getD_some] at hread
    cases hplain : isPlain op with
    | true =>
      have hrow := Shows.plain (i := ⟨offset, number, some op, operands, next⟩) rfl hplain
      rwa [← operandTexts_of_plain hplain] at hrow
    | false =>
      cases op with
      | goto =>
        obtain ⟨v, rfl⟩ := exists_push_of_add ⟨#[], pc, none⟩ hread
        show Shows _ ⟨_, _, [addressText v]⟩
        rw [addressText_eq]
        exact .goto rfl rfl
      | branch whenTrue =>
        obtain ⟨v, rfl⟩ := exists_push_of_add ⟨#[], pc, none⟩ hread
        show Shows _ ⟨_, _, [addressText v]⟩
        rw [addressText_eq]
        exact .branch rfl rfl
      | caseGoto =>
        obtain ⟨v, w, rfl⟩ := exists_pair_of_read hread
        show Shows _ ⟨_, _, [intText v, addressText w]⟩
        rw [addressText_eq]
        exact .caseGoto rfl rfl
      | caseGotoSorted =>
        obtain ⟨entries, rfl⟩ := exists_caseOperands hread
        show Shows _ ⟨_, _, caseTexts (entries.flatMap fun e => [e.1, e.2.toInt32])⟩
        rw [caseTexts_pairs]
        exact .caseGotoSorted rfl rfl
      | call discard =>
        obtain ⟨v, rfl⟩ := exists_push_of_add ⟨#[], pc, none⟩ hread
        exact .call rfl rfl
      | _ => cases hplain

end

/-! ## Instructions of a body -/

section

variable {p : Program} {pc limit : UInt32} {last : Bool} {inst : Instruction}
  {rest : List Instruction}

theorem endsBlock_iff : inst.endsBlock = true ↔ Exits inst := by
  have hop (op : Opcode) : op.endsBlock = true ↔
      op ∈ [Opcode.terminate, .restart, .goto, .returnVoid, .returnVal] := by
    constructor
    · intro h
      unfold Opcode.endsBlock at h
      split at h <;> simp at h ⊢
    · intro h
      simp only [List.mem_cons, List.not_mem_nil, or_false] at h
      rcases h with rfl | rfl | rfl | rfl | rfl <;> rfl
  simp [Instruction.endsBlock, Option.any_eq_true, Exits, hop]

theorem tiles_nil (h : limit ≤ pc ∨ ∃ f, Instruction.decode p.codeWidth p.image pc = .error f) :
    Tiles p pc limit last [] where
  decoded := by simp
  below := by simp
  first := by simp
  adjoining := .nil
  passes := by simp
  stops := by
    rcases h with hlimit | hfault
    · exact .inl hlimit
    · exact .inr (.inl hfault)

theorem tiles_singleton (hbelow : inst.offset < limit)
    (hdecode : Instruction.decode p.codeWidth p.image inst.offset = .ok inst)
    (hlast : last = true) (hends : Exits inst) :
    Tiles p inst.offset limit last [inst] where
  decoded := by simpa using hdecode
  below := by simpa using hbelow
  first := by simp
  adjoining := .singleton inst
  passes := by simp
  stops := .inr (.inr ⟨hlast, inst, rfl, hends⟩)

theorem stopOf_cons (entry : UInt32) (inst : Instruction) (rest : List Instruction) :
    stopOf entry (inst :: rest) = stopOf inst.next rest := by
  unfold stopOf
  rw [List.getLast?_cons]
  cases rest.getLast? <;> rfl

/-- An instruction in front, unless it ends the body. -/
theorem Tiles.cons (h : Tiles p inst.next limit last rest) (hbelow : inst.offset < limit)
    (hdecode : Instruction.decode p.codeWidth p.image inst.offset = .ok inst)
    (hpasses : last = true → ¬ Exits inst) :
    Tiles p inst.offset limit last (inst :: rest) where
  decoded := List.forall_mem_cons.mpr ⟨hdecode, h.decoded⟩
  below := List.forall_mem_cons.mpr ⟨hbelow, h.below⟩
  first := by simp
  adjoining := h.adjoining.cons h.first
  passes := by
    intro hlast
    cases rest with
    | nil => simp
    | cons k rest =>
      rw [List.dropLast_cons_cons]
      exact List.forall_mem_cons.mpr ⟨hpasses hlast, h.passes hlast⟩
  stops := by
    rw [stopOf_cons]
    refine h.stops.imp_right (Or.imp_right ?_)
    rintro ⟨hlast, i, hi, hends⟩
    refine ⟨hlast, i, ?_, hends⟩
    rw [List.getLast?_cons, Option.mem_def.mp hi]
    rfl

/-- The instructions that are listed tile the code, given a step for each byte up to the limit. -/
theorem tiles_decodeRows (hsize : p.image.size + 3 < 2 ^ 32) (limit : UInt32) (last : Bool)
    (fuel : Nat) (pc : UInt32) (hfuel : limit.toNat ≤ pc.toNat + fuel) :
    ∃ insts, Tiles p pc limit last insts ∧
      List.Forall₂ Shows insts (decodeRows p limit last fuel pc).1 := by
  induction fuel generalizing pc with
  | zero => exact ⟨[], tiles_nil (.inl (UInt32.le_iff_toNat_le.mpr hfuel)), .nil⟩
  | succ fuel ih =>
    unfold decodeRows
    by_cases hlimit : limit ≤ pc
    · rw [if_pos hlimit]
      exact ⟨[], tiles_nil (.inl hlimit), .nil⟩
    · rw [if_neg hlimit]
      have hbelow : pc < limit := UInt32.not_le.mp hlimit
      cases hdecode : Instruction.decode p.codeWidth p.image pc with
      | error f => exact ⟨[], tiles_nil (.inr ⟨f, hdecode⟩), .nil⟩
      | ok inst =>
        obtain ⟨-, -, rfl, -⟩ := Instruction.decode_eq_ok_iff.mp hdecode
        have hahead := Instruction.ahead_decode_of_padded hsize hdecode
        obtain ⟨insts, htiles, hrows⟩ := ih inst.next (by have := hahead.lt; omega)
        have hshows := shows_row hdecode
        dsimp only
        by_cases hends : (last && inst.endsBlock) = true
        · rw [if_pos hends]
          rw [Bool.and_eq_true, endsBlock_iff] at hends
          exact ⟨[inst], tiles_singleton hbelow hdecode hends.1 hends.2, .cons hshows .nil⟩
        · rw [if_neg hends]
          rw [Bool.and_eq_true, endsBlock_iff, not_and] at hends
          exact ⟨inst :: insts, htiles.cons hbelow hdecode hends, .cons hshows hrows⟩

end

/-! ## The order of bodies -/

theorem starts_eq (p : Program) :
    starts p = (declared p).mergeSort fun s t => s.entry ≤ t.entry := rfl

theorem mem_starts {p : Program} {s : Start} : s ∈ starts p ↔ s ∈ declared p :=
  List.mem_mergeSort

theorem pairwise_starts (p : Program) : (starts p).Pairwise (·.entry ≤ ·.entry) :=
  pairwise_mergeSort_key Start.entry (declared p)

/-- The end of the code as the header has it. -/
theorem toNat_codeEnd {p : Program} (hsize : p.image.size < 2 ^ 32) {word : UInt32}
    (hword : p.image.Stands 4 (Bytes.le32 word)) :
    (codeEnd p).toNat = min (word.toNat - linkSize p.layout) p.image.size := by
  have hmin (a b : UInt32) : (min a b).toNat = min a.toNat b.toNat := by
    rw [Std.min_eq_if]
    split
    · rename_i hle
      rw [Nat.min_eq_left (UInt32.le_iff_toNat_le.mp hle)]
    · rename_i hlt
      rw [Nat.min_eq_right (Nat.le_of_lt (UInt32.lt_iff_toNat_lt.mp (UInt32.not_le.mp hlt)))]
  have hwhole : p.image.size.toUInt32.toNat = p.image.size :=
    UInt32.toNat_ofNat_of_lt' hsize
  rw [codeEnd, Image.word?_of_stands hword, hmin, hwhole, Option.getD_some]
  congr 1
  cases p.layout with
  | legacy | enhanced => rfl
  | legacyChunked =>
    dsimp only [linkSize]
    split
    · rename_i hshort
      have hlt : word.toNat < 8 := UInt32.lt_iff_toNat_lt.mp hshort
      rw [UInt32.toNat_zero]
      omega
    · rename_i hlong
      exact UInt32.toNat_sub_of_le _ _ (UInt32.not_lt.mp hlong)

/-- The first entry after a body's own is the least one. -/
theorem limit_nextEntry {p : Program} (hsize : p.image.size < 2 ^ 32) {word : UInt32}
    (hword : p.image.Stands 4 (Bytes.le32 word)) (entry : UInt32) :
    Limit p entry ((nextEntry (starts p) entry).getD (codeEnd p))
      (nextEntry (starts p) entry).isNone := by
  cases hnext : nextEntry (starts p) entry with
  | none =>
    refine .codeEnd (fun u hu => UInt32.not_lt.mp ?_) hword (toNat_codeEnd hsize hword)
    have hnone := List.find?_eq_none.mp hnext u.entry (List.mem_map_of_mem (mem_starts.mpr hu))
    simpa using hnone
  | some next =>
    obtain ⟨hafter, before, behind, hsplit, hbefore⟩ := List.find?_eq_some_iff_append.mp hnext
    have hsorted : ((starts p).map (·.entry)).Pairwise (· ≤ ·) :=
      List.pairwise_map.mpr (pairwise_starts p)
    rw [hsplit] at hsorted
    obtain ⟨t, ht, rfl⟩ : ∃ t ∈ starts p, t.entry = next :=
      List.mem_map.mp (hsplit ▸ List.mem_append_right _ List.mem_cons_self)
    refine .next (mem_starts.mp ht) (by simpa using hafter) fun u hu hlt => ?_
    have hmem : u.entry ∈ before ++ t.entry :: behind :=
      hsplit ▸ List.mem_map_of_mem (mem_starts.mpr hu)
    rcases List.mem_append.mp hmem with hfront | hback
    · have hnot := hbefore u.entry hfront
      simp [hlt] at hnot
    · rcases List.mem_cons.mp hback with heq | hbehind
      · exact UInt32.le_of_eq heq.symm
      · exact (List.pairwise_cons.mp (List.pairwise_append.mp hsorted).2.1).1 _ hbehind

theorem bodies_eq (p : Program) :
    (bodies p).1 = (starts p).map fun s => (body p (starts p) s).1 := by
  simp [bodies]

theorem map_start_bodies (p : Program) : (bodies p).1.map Body.start = starts p := by
  rw [bodies_eq, List.map_map]
  exact List.map_id _

/-- The body of a start tiles the code up to its limit. -/
theorem tiles_body {p : Program} (hsize : p.image.size + 3 < 2 ^ 32) {word : UInt32}
    (hword : p.image.Stands 4 (Bytes.le32 word)) (s : Start) :
    ∃ limit last insts, Limit p s.entry limit last ∧ Tiles p s.entry limit last insts ∧
      List.Forall₂ Shows insts (body p (starts p) s).1.rows := by
  obtain ⟨insts, htiles, hrows⟩ := tiles_decodeRows hsize
    ((nextEntry (starts p) s.entry).getD (codeEnd p)) (nextEntry (starts p) s.entry).isNone
    (((nextEntry (starts p) s.entry).getD (codeEnd p)).toNat - s.entry.toNat) s.entry (by omega)
  exact ⟨_, _, insts, limit_nextEntry (by omega) hword s.entry, htiles, hrows⟩

/-! ## Bodies of scripts -/

theorem exists_script_of_kind {p : Program} {t : Start} (ht : t ∈ declared p)
    (hkind : t.kind = .script) : ∃ s ∈ p.scripts, ofScript s = t := by
  rcases List.mem_append.mp ht with hscript | hfunction
  · exact List.mem_map.mp hscript
  · obtain ⟨f, -, rfl⟩ := List.mem_map.mp hfunction
    cases hkind

/-- Among what is listed, a script is found by its number. -/
theorem find?_starts {p : Program} (hascending : p.scripts.Pairwise (·.number < ·.number))
    (n : Int32) :
    (starts p).find? (fun t => t.kind == .script && t.id == n) =
      (p.findScript n).map ofScript := by
  have hnodup : (p.scripts.map (·.number)).Nodup :=
    List.pairwise_map.mpr (hascending.imp Int32.ne_of_lt)
  cases hfind : p.findScript n with
  | none =>
    rw [Option.map_none, List.find?_eq_none]
    intro t ht htn
    rw [Bool.and_eq_true, beq_iff_eq, beq_iff_eq] at htn
    obtain ⟨s, hs, rfl⟩ := exists_script_of_kind (mem_starts.mp ht) htn.1
    exact List.find?_eq_none.mp hfind s hs (beq_iff_eq.mpr htn.2)
  | some s =>
    have hs := List.mem_of_find?_eq_some hfind
    have hn : s.number = n := by simpa using List.find?_some hfind
    have hmem : ofScript s ∈ starts p :=
      mem_starts.mpr (List.mem_append_left _ (List.mem_map_of_mem hs))
    have hsome : ((starts p).find? fun t => t.kind == .script && t.id == n).isSome :=
      List.find?_isSome.mpr ⟨ofScript s, hmem, by simp [ofScript, hn]⟩
    obtain ⟨t, ht⟩ := Option.isSome_iff_exists.mp hsome
    have htn := List.find?_some ht
    rw [Bool.and_eq_true, beq_iff_eq, beq_iff_eq] at htn
    obtain ⟨s', hs', rfl⟩ :=
      exists_script_of_kind (mem_starts.mp (List.mem_of_find?_eq_some ht)) htn.1
    rw [ht, List.inj_on_of_nodup_map hnodup hs' hs (htn.2.trans hn.symm)]
    rfl

theorem script?_bodies {p : Program} (hascending : p.scripts.Pairwise (·.number < ·.number))
    (n : Int32) :
    script? (bodies p).1 n =
      (p.findScript n).map fun s => (body p (starts p) (ofScript s)).1 := by
  rw [script?, bodies_eq, List.find?_map]
  exact (congrArg _ (find?_starts hascending n)).trans (Option.map_map _ _ _)

/-! ## Listings of accepted images -/

/-- **Listings tile the code.** The listing of an accepted image has exactly one body for each
script and each function that is not imported, by ascending entry; those with one entry stay in the
order of their tables, scripts first. The rows of a body show instructions that tile the code from
its entry up to its limit. A script is found in the listing if the program has it, and what is found
is its body. Offsets have 32 bits, and so the image has to be short enough for offsets to be padded
to a multiple of four. -/
theorem bodies_tile_code {image : Image} {encoding : Text.Encoding} {j j' : Journal} {p : Program}
    (hload : image.load encoding j = .ok p j') (hsize : image.size + 3 < 2 ^ 32) :
    p.image = image ∧
    ((bodies p).1.map Body.start).Perm (declared p) ∧
    (bodies p).1.Pairwise (·.address ≤ ·.address) ∧
    (∀ e, ((bodies p).1.filter (·.address == e)).map Body.start =
      (declared p).filter (·.entry == e)) ∧
    (∀ b ∈ (bodies p).1, ∃ limit last insts, Limit p b.address limit last ∧
      Tiles p b.address limit last insts ∧ List.Forall₂ Shows insts b.rows) ∧
    (∀ n, (script? (bodies p).1 n).isSome ↔ (p.findScript n).isSome) ∧
    ∀ n s, p.findScript n = some s → ∃ b ∈ (bodies p).1, script? (bodies p).1 n = some b ∧
      b.start = ⟨.script, n, s.entry, s.argCount⟩ := by
  obtain ⟨-, c, hholds, htells⟩ := Image.ensures_tells image encoding j p j' hload
  obtain rfl : p.image = image := htells.image_eq
  obtain ⟨word, hword⟩ := hholds.exists_word
  have hascending := Image.ascending_of_load hload
  refine ⟨rfl, ?_, ?_, fun e => ?_, fun b hb => ?_, fun n => ?_, fun n s hs => ?_⟩
  · rw [map_start_bodies]
    exact List.mergeSort_perm _ _
  · rw [bodies_eq]
    exact List.pairwise_map.mpr (pairwise_starts p)
  · have hfilter : ((bodies p).1.filter (·.address == e)).map Body.start =
        ((bodies p).1.map Body.start).filter (·.entry == e) := by
      rw [List.filter_map]
      rfl
    rw [hfilter, map_start_bodies, starts_eq, filter_mergeSort_key Start.entry]
  · rw [bodies_eq] at hb
    obtain ⟨s, -, rfl⟩ := List.mem_map.mp hb
    exact tiles_body hsize hword s
  · rw [script?_bodies hascending, Option.isSome_map]
  · have hn : s.number = n := by simpa using List.find?_some hs
    have hfound : script? (bodies p).1 n = some (body p (starts p) (ofScript s)).1 := by
      rw [script?_bodies hascending, hs]
      rfl
    exact ⟨_, List.mem_of_find?_eq_some hfound, hfound, hn ▸ rfl⟩

/-! ## A listing with shared entries -/

namespace Shared

/-- A script and a function start at offset 10, behind another function; a third is imported. The
code ends at offset 17, two bytes behind a jump. -/
def image : Image :=
  (CodeWidth.compact.tag ++ Bytes.le32 17 ++ [167, 7, 52, 8, 0, 0, 0, 0, 0] ++
    Chunk.encode ChunkKind.sptr.id [1, 0, 0, 0, 10, 0, 0, 0, 0, 0, 0, 0] ++
    Chunk.encode ChunkKind.func.id
      [0, 0, 0, 0, 10, 0, 0, 0, 0, 0, 0, 0, 8, 0, 0, 0, 0, 0, 0, 1, 0, 0, 0, 0]).toArray

/-- What is listed, by ascending entry. -/
def order : List Start := [⟨.function, 1, 8, 0⟩, ⟨.script, 1, 10, 0⟩, ⟨.function, 0, 10, 0⟩]

/-- What the image declares, how much lies behind its code, and the rows of the bodies. -/
def facts? : Option (List Start × Nat × List (List Row)) :=
  match image.load .utf8 default with
  | .ok p _ => some (declared p, linkSize p.layout, order.map fun s => (body p order s).1.rows)
  | .error _ _ => none

theorem facts?_eq : facts? =
    some ([⟨.script, 1, 10, 0⟩, ⟨.function, 0, 10, 0⟩, ⟨.function, 1, 8, 0⟩], 0,
      [[⟨8, "pushbyte", ["7"]⟩], [⟨10, "goto", ["0x8"]⟩], [⟨10, "goto", ["0x8"]⟩]]) := by
  decide +kernel

/-- The first body ends at offset 10, and the others with the code. -/
theorem limit_eq {p : Program} (himage : p.image = image)
    (hdeclared : declared p =
      [⟨.script, 1, 10, 0⟩, ⟨.function, 0, 10, 0⟩, ⟨.function, 1, 8, 0⟩])
    (hlink : linkSize p.layout = 0) {entry limit : UInt32} {last : Bool}
    (h : Limit p entry limit last) (hentry : entry = 8 ∨ entry = 10) :
    limit = (if entry = 8 then 10 else 17) ∧ last = (entry != 8) := by
  cases h with
  | @next t mem after least =>
    rw [hdeclared] at mem
    simp only [List.mem_cons, List.not_mem_nil, or_false] at mem
    rcases hentry with rfl | rfl <;> rcases mem with rfl | rfl | rfl <;>
      first | exact ⟨rfl, rfl⟩ | exact absurd after (by decide)
  | @codeEnd word stop none_after header area =>
    have hword : image.word? 4 = some 17 := by decide +kernel
    rw [← himage, Image.word?_of_stands header] at hword
    cases hword
    rcases hentry with rfl | rfl
    · exact absurd (none_after ⟨.script, 1, 10, 0⟩ (by simp [hdeclared])) (by decide)
    · rw [hlink, himage, Nat.min_eq_left (by decide +kernel)] at area
      exact ⟨UInt32.toNat_inj.mp area, rfl⟩

/-- Of the two bytes behind the jump nothing is listed, for the jump ends both last bodies. -/
theorem bodies_tile_code_shared : image.size + 3 < 2 ^ 32 ∧
    ∃ p j, image.load .utf8 default = .ok p j ∧
      (bodies p).1.map (fun b => (b.start, b.rows)) =
        [(⟨.function, 1, 8, 0⟩, [⟨8, "pushbyte", ["7"]⟩]),
          (⟨.script, 1, 10, 0⟩, [⟨10, "goto", ["0x8"]⟩]),
          (⟨.function, 0, 10, 0⟩, [⟨10, "goto", ["0x8"]⟩])] ∧
      (∀ b ∈ (bodies p).1, ∃ insts, Limit p b.address (if b.address = 8 then 10 else 17)
          (b.address != 8) ∧
        Tiles p b.address (if b.address = 8 then 10 else 17) (b.address != 8) insts ∧
        List.Forall₂ Shows insts b.rows) ∧
      ∀ n, (script? (bodies p).1 n).isSome ↔ (p.findScript n).isSome := by
  have hsize : image.size + 3 < 2 ^ 32 := by decide +kernel
  have hfacts := facts?_eq
  unfold facts? at hfacts
  split at hfacts
  next p j hload =>
    obtain ⟨hdeclared, hrest⟩ := Prod.mk.inj (Option.some.inj hfacts)
    obtain ⟨hlink, hrows⟩ := Prod.mk.inj hrest
    obtain ⟨himage, -, -, -, htiles, hfound, -⟩ := bodies_tile_code hload hsize
    have horder : starts p = order := by
      rw [starts_eq, hdeclared]
      simp [order, List.mergeSort, List.MergeSort.Internal.splitInTwo, List.splitAt,
        List.splitAt.go]
    have hbodies := bodies_eq p
    rw [horder] at hbodies
    refine ⟨hsize, p, j, hload, ?_, fun b hb => ?_, hfound⟩
    · have hmap : (order.map fun s => (body p order s).1).map (fun b => (b.start, b.rows)) =
          order.zip (order.map fun s => (body p order s).1.rows) := rfl
      rw [hbodies, hmap, hrows]
      rfl
    · have hentry : b.address = 8 ∨ b.address = 10 := by
        rw [hbodies] at hb
        simp only [order, List.map_cons, List.map_nil, List.mem_cons, List.not_mem_nil,
          or_false] at hb
        rcases hb with rfl | rfl | rfl
        exacts [.inl rfl, .inr rfl, .inr rfl]
      obtain ⟨limit, last, insts, hlimit, htiled, hshown⟩ := htiles b hb
      obtain ⟨rfl, rfl⟩ := limit_eq himage hdeclared hlink hlimit hentry
      exact ⟨insts, hlimit, htiled, hshown⟩
  next => cases hfacts

end Shared

end LevelScript.Listing
