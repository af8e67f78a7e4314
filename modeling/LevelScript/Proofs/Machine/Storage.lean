import LevelScript.Proofs.Machine.Calls

/-!
# Stored values

Variables and elements of arrays are cells. An instruction names one of them by an index, or none
if the index is out of range; what it stores changes the cell that it names and no other.

* `Machine.cell?`, `Machine.setCell`: what a cell holds, and storing into it.
* `Machine.varCell?`, `Machine.elementCell?`: the cell that an instruction names.
* `Update.wrapped`: what is stored, in unbounded numbers.
* `Exec.updateVar_eq_ok`, `Exec.updateElement_eq_ok`: the updates.
-/

namespace LevelScript

/-! ## Cells -/

/-- A place for a number. -/
inductive StorageCell where
  /-- A variable of the instance. -/
  | own (i : Nat)
  /-- A slot of the stack, where functions have their variables. -/
  | slot (i : Nat)
  | mapVar (i : Nat)
  | worldVar (i : Nat)
  | globalVar (i : Nat)
  | mapElement (array i : Nat)
  | worldElement (array : Nat) (i : Int32)
  | globalElement (array : Nat) (i : Int32)
  deriving DecidableEq, Repr

/-- The number in a slot of the stack. -/
def Slot.number? : Slot → Option Int32
  | .value v => some v
  | .record _ => none

namespace SparseArray

theorem get_set (a : SparseArray) (i j v : Int32) :
    (a.set i v).get j = if j = i then v else a.get j := by
  have hcompare : compare i j = .eq ↔ j = i := by
    rw [Std.LawfulEqCmp.compare_eq_iff_eq, eq_comm]
  unfold set get
  by_cases hv : v = 0
  · rw [if_pos hv, Std.ExtTreeMap.getD_erase, hv]
    simp only [hcompare]
  · rw [if_neg hv, Std.ExtTreeMap.getD_insert]
    simp only [hcompare]

end SparseArray

namespace Machine

variable {ω : Type}

/-- The number in a cell, if there is such a cell. -/
def cell? (m : Machine ω) : StorageCell → Option Int32
  | .own i => m.inst.locals[i]?
  | .slot i => m.stack[i]?.bind Slot.number?
  | .mapVar i => m.memory.vars[i]?
  | .worldVar i => m.session.worldVars[i]?
  | .globalVar i => m.session.globalVars[i]?
  | .mapElement a i => m.memory.arrays[a]?.bind (·[i]?)
  | .worldElement a i => m.session.worldArrays[a]?.map (·.get i)
  | .globalElement a i => m.session.globalArrays[a]?.map (·.get i)

/-- The machine with another number in a cell. -/
def setCell (m : Machine ω) (v : Int32) : StorageCell → Machine ω
  | .own i => { m with inst := { m.inst with locals := m.inst.locals.setIfInBounds i v } }
  | .slot i => { m with stack := m.stack.setIfInBounds i (.value v) }
  | .mapVar i => { m with memory := m.memory.setVar i v }
  | .worldVar i => { m with session := m.session.setWorldVar i v }
  | .globalVar i => { m with session := m.session.setGlobalVar i v }
  | .mapElement a i => { m with
      memory := { m.memory with arrays := m.memory.arrays.modify a (·.setIfInBounds i v) } }
  | .worldElement a i => { m with session := m.session.setWorldElement a i v }
  | .globalElement a i => { m with session := m.session.setGlobalElement a i v }

/-! ## Storing changes one cell -/

theorem getElem?_setIfInBounds_of_some {α : Type} {xs : Array α} {i : Nat} {x : α}
    (h : xs[i]? = some x) (v : α) (j : Nat) :
    (xs.setIfInBounds i v)[j]? = if j = i then some v else xs[j]? := by
  obtain ⟨hlt, -⟩ := Array.getElem?_eq_some_iff.mp h
  rw [Array.getElem?_setIfInBounds, if_pos hlt]
  simp only [eq_comm]

theorem getElem?_vector_set_of_some {α : Type} {n : Nat} {xs : Vector α n} {i : Nat} {x : α}
    (h : xs[i]? = some x) (v : α) (j : Nat) :
    (xs.setIfInBounds i v)[j]? = if j = i then some v else xs[j]? := by
  obtain ⟨hlt, -⟩ := Vector.getElem?_eq_some_iff.mp h
  rw [Vector.getElem?_setIfInBounds, if_pos hlt]
  simp only [eq_comm]

theorem getElem?_modify_set {arrays : Array (Array Int32)} {a i : Nat} {x : Int32}
    (h : arrays[a]?.bind (·[i]?) = some x) (v : Int32) (b j : Nat) :
    (arrays.modify a (·.setIfInBounds i v))[b]?.bind (·[j]?) =
      if b = a ∧ j = i then some v else arrays[b]?.bind (·[j]?) := by
  obtain ⟨xs, hxs, hx⟩ := Option.bind_eq_some_iff.mp h
  rw [Array.getElem?_modify]
  by_cases hb : a = b
  · subst hb
    rw [if_pos rfl, hxs, Option.map_some, Option.bind_some, Option.bind_some,
      getElem?_setIfInBounds_of_some hx]
    simp only [true_and]
  · rw [if_neg hb, if_neg fun hand => hb hand.1.symm]

theorem get_set_arrays {n : Nat} (arrays : Vector SparseArray n) {a : Nat} (h : a < n)
    (i v : Int32) (b : Nat) (j : Int32) :
    (arrays.set a (arrays[a].set i v))[b]?.map (·.get j) =
      if b = a ∧ j = i then some v else arrays[b]?.map (·.get j) := by
  rw [Vector.getElem?_set]
  by_cases hb : a = b
  · subst hb
    rw [if_pos rfl, Option.map_some, SparseArray.get_set, Vector.getElem?_eq_getElem h,
      Option.map_some]
    by_cases hj : j = i
    · rw [if_pos hj, if_pos ⟨rfl, hj⟩]
    · rw [if_neg hj, if_neg fun hand => hj hand.2]
  · rw [if_neg hb, if_neg fun hand => hb hand.1.symm]

/-- Storing into a cell changes that cell only. -/
theorem cell?_setCell {m : Machine ω} {c : StorageCell} {x : Int32} (h : m.cell? c = some x)
    (v : Int32) (c' : StorageCell) :
    (m.setCell v c).cell? c' = if c' = c then some v else m.cell? c' := by
  cases c with
  | own i =>
    cases c' with
    | own j =>
      simp only [StorageCell.own.injEq]
      exact getElem?_setIfInBounds_of_some h v j
    | _ => rfl
  | slot i =>
    cases c' with
    | slot j =>
      obtain ⟨s, hslot, -⟩ := Option.bind_eq_some_iff.mp h
      simp only [StorageCell.slot.injEq, setCell, cell?, getElem?_setIfInBounds_of_some hslot]
      by_cases hj : j = i
      · rw [if_pos hj, if_pos hj]
        rfl
      · rw [if_neg hj, if_neg hj]
    | _ => rfl
  | mapVar i =>
    cases c' with
    | mapVar j =>
      simp only [StorageCell.mapVar.injEq]
      exact getElem?_vector_set_of_some h v j
    | _ => rfl
  | worldVar i =>
    cases c' with
    | worldVar j =>
      simp only [StorageCell.worldVar.injEq]
      exact getElem?_vector_set_of_some h v j
    | _ => rfl
  | globalVar i =>
    cases c' with
    | globalVar j =>
      simp only [StorageCell.globalVar.injEq]
      exact getElem?_vector_set_of_some h v j
    | _ => rfl
  | mapElement a i =>
    cases c' with
    | mapElement b j =>
      simp only [StorageCell.mapElement.injEq]
      exact getElem?_modify_set h v b j
    | _ => rfl
  | worldElement a i =>
    obtain ⟨_, harray, -⟩ := Option.map_eq_some_iff.mp h
    obtain ⟨hlt, -⟩ := Vector.getElem?_eq_some_iff.mp harray
    rw [setCell, Session.setWorldElement, dif_pos hlt]
    cases c' with
    | worldElement b j =>
      simp only [StorageCell.worldElement.injEq]
      exact get_set_arrays m.session.worldArrays hlt i v b j
    | _ => rfl
  | globalElement a i =>
    obtain ⟨_, harray, -⟩ := Option.map_eq_some_iff.mp h
    obtain ⟨hlt, -⟩ := Vector.getElem?_eq_some_iff.mp harray
    rw [setCell, Session.setGlobalElement, dif_pos hlt]
    cases c' with
    | globalElement b j =>
      simp only [StorageCell.globalElement.injEq]
      exact get_set_arrays m.session.globalArrays hlt i v b j
    | _ => rfl

/-! ## Cells that are named -/

/-- The cell that an index names as a variable of a scope; no cell if the index is out of range.
Nothing is named where a function has no frame. -/
def varCell? (ctx : Context) (m : Machine ω) (index : UInt32) :
    Scope → Option (Option StorageCell)
  | .script => match m.inst.frame with
    | .script => some (if index.toNat < m.inst.locals.size then some (.own index.toNat) else none)
    | .stack base => (m.inst.function.bind ctx.program.function?).map fun f =>
      if index.toNat < f.frameSize then some (.slot (ctx.base + base.toNat + index.toNat)) else none
  | .map => some (if index.toNat < mapVarCount then some (.mapVar index.toNat) else none)
  | .world => some (if index.toNat < worldCount then some (.worldVar index.toNat) else none)
  | .global => some (if index.toNat < globalCount then some (.globalVar index.toNat) else none)

/-- The cell that an index and an element name. A map array is the one whose number the map
variable holds, and has a length; the other arrays have all elements. -/
def elementCell? (m : Machine ω) (index : UInt32) (element : Int32) :
    ArrayScope → Option StorageCell
  | .map =>
    match m.memory.vars[index.toNat]?.bind MapMemory.index?, MapMemory.index? element with
    | some array, some i =>
      if i < (m.memory.arrays.getD array #[]).size then some (.mapElement array i) else none
    | _, _ => none
  | .world => if index.toNat < worldCount then some (.worldElement index.toNat element) else none
  | .global =>
    if index.toNat < globalCount then some (.globalElement index.toNat element) else none

end Machine

/-! ## Results -/

namespace Update

/-- What an update makes of a number, without bounds. -/
def result : Update → Int → Int → Int
  | .assign, _, v => v
  | .add, x, v => x + v
  | .sub, x, v => x - v
  | .mul, x, v => x * v
  | .div, x, v => x.tdiv v
  | .mod, x, v => x.tmod v
  | .inc, x, _ => x + 1
  | .dec, x, _ => x - 1

/-- The update divides, and the divisor is zero. -/
def ByZero (u : Update) (operand : Int32) : Prop := (u = .div ∨ u = .mod) ∧ operand = 0

/-- The result of an update, wrapped around to 32 bits. -/
def wrapped (u : Update) (x operand : Int32) : Int32 := .ofInt (u.result x.toInt operand.toInt)

theorem applied_of_byZero {u : Update} {operand : Int32} (h : u.ByZero operand) (x : Int32) :
    u.updated? x operand = none := by
  obtain ⟨rfl | rfl, rfl⟩ := h
  · rfl
  · rfl

theorem applied_of_not_byZero {u : Update} {operand : Int32} (h : ¬ u.ByZero operand) (x : Int32) :
    u.updated? x operand = some (u.wrapped x operand) := by
  have hne : u = .div ∨ u = .mod → (operand == 0) = false := fun hu =>
    beq_eq_false_iff_ne.mpr fun hzero => h ⟨hu, hzero⟩
  unfold wrapped
  cases u with
  | assign => simp only [Update.updated?, result, Int32.ofInt_toInt]
  | add => simp only [Update.updated?, result, Int32.ofInt_add, Int32.ofInt_toInt]
  | sub => simp only [Update.updated?, result, Int32.ofInt_sub, Int32.ofInt_toInt]
  | mul => simp only [Update.updated?, result, Int32.ofInt_mul, Int32.ofInt_toInt]
  | div =>
    have hquotient : x / operand = .ofInt (x.toInt.tdiv operand.toInt) := by
      rw [← Int32.toInt_inj, Int32.toInt_div, Int32.toInt_ofInt]
    rw [Update.updated?, hne (.inl rfl), hquotient]
    rfl
  | mod =>
    have hremainder : x % operand = .ofInt (x.toInt.tmod operand.toInt) := by
      rw [← Int32.toInt_mod, Int32.ofInt_toInt]
    rw [Update.updated?, hne (.inr rfl), hremainder]
    rfl
  | inc => simp only [Update.updated?, result, Int32.ofInt_add, Int32.ofInt_toInt]; rfl
  | dec => simp only [Update.updated?, result, Int32.ofInt_sub, Int32.ofInt_toInt]; rfl

theorem wrapped_assign (x y operand : Int32) :
    wrapped .assign x operand = wrapped .assign y operand := by
  simp only [wrapped, result]

/-- The slots of the operand, if the update takes one. -/
def taken (u : Update) (operand : Int32) : Array Slot :=
  if u.takesOperand then #[.value operand] else #[]

end Update

namespace Machine

variable {ω : Type}

/-- What there is where an index leads: the number in a cell, or nothing out of range. -/
inductive Finds (m : Machine ω) : Option StorageCell → Option Int32 → Prop
  | outside : Finds m none none
  | cell {c : StorageCell} {x : Int32} (h : m.cell? c = some x) : Finds m (some c) (some x)

theorem Finds.congr {m m' : Machine ω} {target : Option StorageCell} {r : Option Int32}
    (h : m.Finds target r) (hcells : ∀ c, m'.cell? c = m.cell? c) : m'.Finds target r := by
  cases h with
  | outside => exact .outside
  | cell hx => exact .cell ((hcells _).trans hx)

theorem finds_none_iff {m : Machine ω} {r : Option Int32} : m.Finds none r ↔ r = none := by
  constructor
  · rintro ⟨⟩
    rfl
  · rintro rfl
    exact .outside

theorem finds_some_iff {m : Machine ω} {c : StorageCell} {r : Option Int32} :
    m.Finds (some c) r ↔ ∃ x, m.cell? c = some x ∧ r = some x := by
  constructor
  · rintro (_ | h)
    exact ⟨_, h, rfl⟩
  · rintro ⟨x, h, rfl⟩
    exact .cell h

theorem finds_range_iff {m : Machine ω} {c : StorageCell} {p : Prop} [Decidable p]
    (h : p ↔ (m.cell? c).isSome) {r : Option Int32} :
    m.Finds (if p then some c else none) r ↔ r = m.cell? c := by
  by_cases hp : p
  · obtain ⟨x, hx⟩ := Option.isSome_iff_exists.mp (h.mp hp)
    rw [if_pos hp, finds_some_iff, hx]
    simp
  · have hnone : m.cell? c = none := Option.not_isSome_iff_eq_none.mp (mt h.mpr hp)
    rw [if_neg hp, finds_none_iff, hnone]

/-- The machine after an update of what an index leads to. The operands are already popped. -/
structure Updated (m : Machine ω) (u : Update) (operand : Int32) (target : Option StorageCell)
    (m' : Machine ω) : Prop where
  divide : u = .div → operand = 0 → m' = { m with inst := { m.inst with status := .divideByZero } }
  modulus : u = .mod → operand = 0 →
    m' = { m with inst := { m.inst with status := .modulusByZero } }
  outside : ¬ u.ByZero operand → target = none → m' = m
  /-- One cell changes, and no other. -/
  cell : ∀ c, ¬ u.ByZero operand → target = some c → ∃ x, m.cell? c = some x ∧
    m' = m.setCell (u.wrapped x operand) c ∧
    ∀ c', m'.cell? c' = if c' = c then some (u.wrapped x operand) else m.cell? c'

end Machine

namespace Exec

variable {ω : Type} {ctx : Context} {m m' : Machine ω} {scope : Scope} {index : UInt32}
  {u : Update} {operand : Int32} {target : Option StorageCell} {r : Option Int32}
  {rest : Array Slot}

/-! ## Variables -/

theorem valueAt_eq (ctx : Context) (m : Machine ω) (slot : Nat) :
    valueAt slot ctx m = match m.cell? (.slot slot) with
      | some v => .ok v m
      | none => .error (.badFrame slot) m := by
  simp only [valueAt, Machine.cell?]
  cases m.stack[slot]? with
  | none => rfl
  | some s => cases s <;> rfl

theorem lt_iff_isSome_getElem? {α : Type} {n : Nat} (xs : Vector α n) (i : Nat) :
    i < n ↔ xs[i]?.isSome := by
  simp

/-- A look at a cell that is there if the index is in range. -/
theorem look_eq_ok_iff {c : StorageCell} {p : Prop} [Decidable p]
    (hrange : p ↔ (m.cell? c).isSome) :
    (EStateM.Result.ok (m.cell? c) m : EStateM.Result Fault _ _) = .ok r m' ↔
      m' = m ∧ ∃ target, some (if p then some c else none) = some target ∧ m.Finds target r := by
  constructor
  · rintro ⟨⟩
    exact ⟨rfl, _, rfl, (Machine.finds_range_iff hrange).mpr rfl⟩
  · rintro ⟨rfl, target, htarget, hfinds⟩
    cases htarget
    rw [(Machine.finds_range_iff hrange).mp hfinds]

/-- What reading a variable gives. -/
theorem readVar_eq_ok_iff :
    readVar scope index ctx m = .ok r m' ↔
      m' = m ∧ ∃ target, m.varCell? ctx index scope = some target ∧ m.Finds target r := by
  cases scope with
  | script =>
    rw [show readVar .script index ctx m = _ from bind_ok (x := getInst) rfl _]
    unfold Machine.varCell?
    dsimp only
    cases m.inst.frame with
    | script => exact look_eq_ok_iff (c := .own index.toNat) (by simp [Machine.cell?])
    | stack base =>
      dsimp only
      cases hf : m.inst.function.bind ctx.program.function? with
      | none =>
        rw [bind_error (frameSlot_of_none hf base index)]
        simp
      | some f =>
        rw [bind_ok (frameSlot_of_some hf base index), Option.map_some]
        by_cases hlt : index.toNat < f.frameSize
        · rw [if_pos hlt, if_pos hlt]
          simp only [Option.some_inj, exists_eq_left', Machine.finds_some_iff]
          have hvalue := valueAt_eq ctx m (ctx.base + base.toNat + index.toNat)
          generalize m.cell? (.slot (ctx.base + base.toNat + index.toNat)) = cell at hvalue ⊢
          cases cell with
          | none =>
            rw [bind_error hvalue]
            simp
          | some x =>
            rw [bind_ok hvalue]
            simp [pure, ReaderT.pure, EStateM.pure, eq_comm, and_comm]
        · rw [if_neg hlt, if_neg hlt]
          simp only [Option.some_inj, exists_eq_left', Machine.finds_none_iff]
          simp [pure, ReaderT.pure, EStateM.pure, eq_comm, and_comm]
  | map => exact look_eq_ok_iff (c := .mapVar index.toNat) (lt_iff_isSome_getElem? _ _)
  | world => exact look_eq_ok_iff (c := .worldVar index.toNat) (lt_iff_isSome_getElem? _ _)
  | global => exact look_eq_ok_iff (c := .globalVar index.toNat) (lt_iff_isSome_getElem? _ _)

/-- A number is put into a cell that is there if the index is in range. -/
theorem put_eq_ok_iff {c : StorageCell} {p : Prop} [Decidable p] {v : Int32} {b : Bool}
    (hrange : p ↔ (m.cell? c).isSome) (houtside : ¬ p → m.setCell v c = m) :
    (EStateM.Result.ok (decide p) (m.setCell v c) : EStateM.Result Fault _ _) = .ok b m' ↔
      ∃ target, some (if p then some c else none) = some target ∧ (∃ r, m.Finds target r) ∧
        b = target.isSome ∧ m' = target.elim m (m.setCell v) := by
  have hput : decide p = (if p then some c else none).isSome ∧
      m.setCell v c = (if p then some c else none).elim m (m.setCell v) := by
    by_cases hp : p
    · simp [hp]
    · simp [hp, houtside hp]
  rw [hput.1, hput.2]
  constructor
  · intro h
    cases h
    exact ⟨_, rfl, ⟨_, (Machine.finds_range_iff hrange).mpr rfl⟩, rfl, rfl⟩
  · rintro ⟨target, htarget, -, rfl, rfl⟩
    cases htarget
    rfl

theorem setValueAt_eq_ok_iff {slot : Nat} {v : Int32} :
    setValueAt slot v ctx m = .ok () m' ↔
      (∃ x, m.cell? (.slot slot) = some x) ∧ m' = m.setCell v (.slot slot) := by
  simp only [setValueAt, Machine.cell?, Machine.setCell]
  cases m.stack[slot]? with
  | none => simp
  | some s =>
    cases s with
    | value x => simp [Slot.number?, eq_comm]
    | record r => simp [Slot.number?]

/-- What writing a variable does. -/
theorem writeVar_eq_ok_iff {v : Int32} {b : Bool} :
    writeVar scope index v ctx m = .ok b m' ↔
      ∃ target, m.varCell? ctx index scope = some target ∧ (∃ r, m.Finds target r) ∧
        b = target.isSome ∧ m' = target.elim m (m.setCell v) := by
  cases scope with
  | script =>
    rw [show writeVar .script index v ctx m = _ from bind_ok (x := getInst) rfl _]
    unfold Machine.varCell?
    dsimp only
    cases m.inst.frame with
    | script =>
      refine put_eq_ok_iff (c := .own index.toNat) (by simp [Machine.cell?]) fun hi => ?_
      simp only [Machine.setCell, Array.setIfInBounds_eq_of_size_le (Nat.le_of_not_lt hi)]
    | stack base =>
      dsimp only
      cases hf : m.inst.function.bind ctx.program.function? with
      | none =>
        rw [bind_error (frameSlot_of_none hf base index)]
        simp
      | some f =>
        rw [bind_ok (frameSlot_of_some hf base index), Option.map_some]
        by_cases hlt : index.toNat < f.frameSize
        · rw [if_pos hlt, if_pos hlt]
          constructor
          · intro h
            obtain ⟨_, m₁, hset, hrest⟩ := bind_eq_ok h
            obtain ⟨⟨x, hx⟩, rfl⟩ := setValueAt_eq_ok_iff.mp hset
            cases hrest
            exact ⟨_, rfl, ⟨_, .cell hx⟩, rfl, rfl⟩
          · rintro ⟨target, htarget, ⟨r, hfinds⟩, rfl, rfl⟩
            cases htarget
            obtain ⟨x, hx, -⟩ := Machine.finds_some_iff.mp hfinds
            exact bind_ok (setValueAt_eq_ok_iff.mpr ⟨⟨x, hx⟩, rfl⟩) _
        · rw [if_neg hlt, if_neg hlt]
          constructor
          · intro h
            cases h
            exact ⟨_, rfl, ⟨_, .outside⟩, rfl, rfl⟩
          · rintro ⟨target, htarget, -, rfl, rfl⟩
            cases htarget
            rfl
  | map =>
    refine put_eq_ok_iff (c := .mapVar index.toNat) (lt_iff_isSome_getElem? _ _) fun hi => ?_
    simp only [Machine.setCell, MapMemory.setVar,
      Vector.setIfInBounds_eq_of_size_le (Nat.le_of_not_lt hi)]
  | world =>
    refine put_eq_ok_iff (c := .worldVar index.toNat) (lt_iff_isSome_getElem? _ _) fun hi => ?_
    simp only [Machine.setCell, Session.setWorldVar,
      Vector.setIfInBounds_eq_of_size_le (Nat.le_of_not_lt hi)]
  | global =>
    refine put_eq_ok_iff (c := .globalVar index.toNat) (lt_iff_isSome_getElem? _ _) fun hi => ?_
    simp only [Machine.setCell, Session.setGlobalVar,
      Vector.setIfInBounds_eq_of_size_le (Nat.le_of_not_lt hi)]

theorem loadVar_eq_ok {x : Int32} (h : loadVar scope index ctx m = .ok x m') :
    ∃ target r journal, m.varCell? ctx index scope = some target ∧ m.Finds target r ∧
      x = r.getD 0 ∧ m' = { m with journal := journal } := by
  obtain ⟨r, m₁, hread, hrest⟩ := bind_eq_ok h
  obtain ⟨rfl, target, htarget, hfinds⟩ := readVar_eq_ok_iff.mp hread
  cases r with
  | none =>
    cases hrest
    exact ⟨target, none, _, htarget, hfinds, rfl, rfl⟩
  | some y =>
    cases hrest
    exact ⟨target, some x, _, htarget, hfinds, rfl, rfl⟩

theorem loadVar_outside (h : m.varCell? ctx index scope = some none) :
    ∃ journal, loadVar scope index ctx m = .ok 0 { m with journal := journal } :=
  ⟨_, bind_ok (readVar_eq_ok_iff.mpr ⟨rfl, none, h, .outside⟩) _⟩

theorem loadVar_cell {c : StorageCell} {x : Int32}
    (h : m.varCell? ctx index scope = some (some c)) (hx : m.cell? c = some x) :
    loadVar scope index ctx m = .ok x m :=
  bind_ok (readVar_eq_ok_iff.mpr ⟨rfl, some c, h, .cell hx⟩) _

theorem storeVar_eq_ok {v : Int32} (h : storeVar scope index v ctx m = .ok () m') :
    ∃ target journal, m.varCell? ctx index scope = some target ∧ (∃ r, m.Finds target r) ∧
      m' = { target.elim m (m.setCell v) with journal := journal } := by
  obtain ⟨b, m₁, hwrite, hrest⟩ := bind_eq_ok h
  obtain ⟨target, htarget, hfinds, rfl, rfl⟩ := writeVar_eq_ok_iff.mp hwrite
  refine ⟨target, m'.journal, htarget, hfinds, ?_⟩
  cases target with
  | none =>
    cases hrest
    rfl
  | some c =>
    cases hrest
    rfl

theorem storeVar_ok
    (htarget : m.varCell? ctx index scope = some target) (hfinds : m.Finds target r) (v : Int32) :
    ∃ m', storeVar scope index v ctx m = .ok () m' := by
  have hwrite := (writeVar_eq_ok_iff (v := v)).mpr ⟨target, htarget, ⟨r, hfinds⟩, rfl, rfl⟩
  cases target with
  | none => exact ⟨_, bind_ok hwrite _⟩
  | some c => exact ⟨_, bind_ok hwrite _⟩

/-! ## Updates -/

theorem top?_of_push {v : Int32} (h : m.stack = rest.push (.value v))
    (hbase : ctx.base ≤ rest.size) : m.top? ctx = some v := by
  rw [Machine.top?, h, if_neg (by rw [Array.size_push]; omega), Array.back?_push]

theorem stack_of_top? {v : Int32} (h : m.top? ctx = some v) :
    m.stack = m.stack.pop.push (.value v) := by
  unfold Machine.top? at h
  split at h
  · cases h
  · split at h
    · rename_i w hback
      cases h
      obtain ⟨rest, hrest⟩ := Array.back?_eq_some_iff.mp hback
      rw [hrest, Array.pop_push]
    · cases h

theorem updateOperand_eq_ok (h : updateOperand u ctx m = .ok operand m') :
    ∃ rest, m.stack = rest ++ u.taken operand ∧ m' = { m with stack := rest } := by
  unfold updateOperand at h
  unfold Update.taken
  split at h
  · rename_i hu
    obtain ⟨htop, rfl⟩ := pop_eq_ok h
    refine ⟨m.stack.pop, ?_, rfl⟩
    rw [if_pos hu, Array.append_singleton]
    exact stack_of_top? htop
  · rename_i hu
    cases h
    refine ⟨m.stack, ?_, rfl⟩
    rw [if_neg hu, Array.append_empty]

theorem updateOperand_ok (h : m.stack = rest ++ u.taken operand) (hbase : ctx.base ≤ rest.size) :
    ∃ v, updateOperand u ctx m = .ok v { m with stack := rest } := by
  unfold Update.taken at h
  unfold updateOperand
  split at h
  · rename_i hu
    rw [Array.append_singleton] at h
    rw [if_pos hu, pop_of_top? (top?_of_push h hbase), h, Array.pop_push]
    exact ⟨operand, rfl⟩
  · rename_i hu
    rw [Array.append_empty] at h
    rw [if_neg hu, ← h]
    exact ⟨1, rfl⟩

/-- A result is stored where the index leads. -/
theorem updated_of_store (hfinds : m.Finds target r) (hzero : ¬ u.ByZero operand) :
    m.Updated u operand target (target.elim m (m.setCell (u.wrapped (r.getD 0) operand))) where
  divide hu hoperand := absurd ⟨.inl hu, hoperand⟩ hzero
  modulus hu hoperand := absurd ⟨.inr hu, hoperand⟩ hzero
  outside _ htarget := by rw [htarget]; rfl
  cell c _ htarget := by
    obtain rfl := htarget
    obtain ⟨x, hx, rfl⟩ := Machine.finds_some_iff.mp hfinds
    exact ⟨x, hx, rfl, Machine.cell?_setCell hx _⟩

/-- A zero divisor leads to a status. -/
theorem updated_of_byZero (hzero : u.ByZero operand) : m.Updated u operand target
      { m with inst := { m.inst with status := u.zeroStatus } } where
  divide hu _ := by rw [hu]; rfl
  modulus hu _ := by rw [hu]; rfl
  outside hne := absurd hzero hne
  cell _ hne := absurd hzero hne

/-- Storing does not touch the journal. -/
theorem elim_setCell_journal (m : Machine ω) (target : Option StorageCell) (v : Int32)
    (journal : Journal) :
    ({ target.elim m (m.setCell v) with journal := journal } : Machine ω) =
      target.elim { m with journal := journal }
        (Machine.setCell { m with journal := journal } v) := by
  cases target with
  | none => rfl
  | some c =>
    cases c <;> rfl

/-- The last part of an update: what it makes of a number is stored. -/
def storeResult (u : Update) (scope : Scope) (index : UInt32) (current operand : Int32) :
    Exec ω Unit :=
  match u.updated? current operand with
  | some v => storeVar scope index v
  | none => setStatus u.zeroStatus

/-- An update of a variable reads it first, except where it assigns. -/
theorem updateVar_eq (u : Update) (scope : Scope) (index : UInt32) :
    updateVar (ω := ω) u scope index = updateOperand u >>= fun operand =>
      if u = .assign then storeResult u scope index 0 operand
      else loadVar scope index >>= fun current => storeResult u scope index current operand := by
  by_cases hassign : u = .assign
  · subst hassign
    rfl
  · simp only [if_neg hassign]
    have hload : (u == .assign) = false := beq_eq_false_iff_ne.mpr hassign
    unfold updateVar
    simp only [hload]
    rfl

theorem updateVar_reads (h : updateVar u scope index ctx m = .ok () m') :
    ∃ operand rest current journal, m.stack = rest ++ u.taken operand ∧
      storeResult u scope index current operand ctx
        { m with stack := rest, journal := journal } = .ok () m' ∧
      (u = .assign ∨ ∃ target r, m.varCell? ctx index scope = some target ∧
        Machine.Finds { m with stack := rest, journal := journal } target r ∧
        current = r.getD 0) := by
  rw [updateVar_eq] at h
  obtain ⟨operand, m₁, hoperand, hrest⟩ := bind_eq_ok h
  obtain ⟨rest, hstack, rfl⟩ := updateOperand_eq_ok hoperand
  by_cases hassign : u = .assign
  · rw [if_pos hassign] at hrest
    exact ⟨operand, rest, 0, m.journal, hstack, hrest, .inl hassign⟩
  · rw [if_neg hassign] at hrest
    obtain ⟨current, m₂, hload, hrest⟩ := bind_eq_ok hrest
    obtain ⟨target, r, journal, htarget, hfinds, hcurrent, rfl⟩ := loadVar_eq_ok hload
    exact ⟨operand, rest, current, journal, hstack, hrest,
      .inr ⟨target, r, htarget, hfinds.congr fun _ => rfl, hcurrent⟩⟩

/-- An update of a variable. -/
theorem updateVar_eq_ok (h : updateVar u scope index ctx m = .ok () m') :
    ∃ operand rest journal target, m.stack = rest ++ u.taken operand ∧
      m.varCell? ctx index scope = some target ∧
      Machine.Updated { m with stack := rest, journal := journal } u operand target m' := by
  obtain ⟨operand, rest, current, journal, hstack, hrun, hcurrent⟩ := updateVar_reads h
  unfold storeResult at hrun
  by_cases hzero : u.ByZero operand
  · rw [Update.applied_of_byZero hzero] at hrun
    cases hrun
    obtain rfl | ⟨target, r, htarget, -⟩ := hcurrent
    · obtain ⟨hu | hu, -⟩ := hzero <;> cases hu
    · exact ⟨operand, rest, journal, target, hstack, htarget, updated_of_byZero hzero⟩
  · rw [Update.applied_of_not_byZero hzero] at hrun
    obtain ⟨target, journal', htarget, ⟨r, hfinds⟩, rfl⟩ := storeVar_eq_ok hrun
    rw [elim_setCell_journal]
    refine ⟨operand, rest, journal', target, hstack, htarget, ?_⟩
    obtain rfl | ⟨target', r', htarget', hfinds', rfl⟩ := hcurrent
    · -- What is assigned does not depend on what was there.
      rw [Update.wrapped_assign current (r.getD 0)]
      exact updated_of_store (hfinds.congr fun _ => rfl) hzero
    · obtain rfl : target' = target := Option.some.inj (htarget'.symm.trans htarget)
      exact updated_of_store (hfinds'.congr fun _ => rfl) hzero

/-- An update of a variable succeeds where the operand and the variable are numbers. -/
theorem updateVar_ok (hstack : m.stack = rest ++ u.taken operand)
    (hbase : ctx.base ≤ rest.size) (htarget : m.varCell? ctx index scope = some target)
    (hfinds : Machine.Finds { m with stack := rest } target r) :
    ∃ m', updateVar u scope index ctx m = .ok () m' := by
  obtain ⟨v, hoperand⟩ := updateOperand_ok hstack hbase
  have hstore (current : Int32) (journal : Journal) : ∃ m', storeResult u scope index current v ctx
      { m with stack := rest, journal := journal } = .ok () m' := by
    unfold storeResult
    cases u.updated? current v with
    | none => exact ⟨_, rfl⟩
    | some w =>
      exact storeVar_ok (m := { m with stack := rest, journal := journal }) htarget
        (hfinds.congr fun _ => rfl) w
  have hload : ∃ current journal, loadVar scope index ctx { m with stack := rest } =
      .ok current { m with stack := rest, journal := journal } := by
    cases hfinds with
    | outside =>
      obtain ⟨journal, hload⟩ := loadVar_outside (m := { m with stack := rest }) htarget
      exact ⟨0, journal, hload⟩
    | cell hx => exact ⟨_, m.journal, loadVar_cell (m := { m with stack := rest }) htarget hx⟩
  rw [updateVar_eq, bind_ok hoperand]
  split
  · exact hstore 0 m.journal
  · obtain ⟨current, journal, hload⟩ := hload
    rw [bind_ok hload]
    exact hstore current journal

/-! ## Arrays -/

section Arrays

variable {scope : ArrayScope} {element : Int32}

theorem lt_size_getD_iff (arrays : Array (Array Int32)) (a i : Nat) :
    i < (arrays.getD a #[]).size ↔ (arrays[a]?.bind (·[i]?)).isSome := by
  rw [Array.getD_eq_getD_getElem?]
  cases arrays[a]? with
  | none => simp
  | some xs => simp

theorem modify_outside {arrays : Array (Array Int32)} {a i : Nat}
    (h : ¬ i < (arrays.getD a #[]).size) (v : Int32) :
    arrays.modify a (·.setIfInBounds i v) = arrays := by
  apply Array.ext_getElem?
  intro b
  rw [Array.getElem?_modify]
  split
  · rename_i hb
    subst hb
    rw [Array.getD_eq_getD_getElem?] at h
    cases harray : arrays[a]? with
    | none => rfl
    | some xs =>
      rw [harray, Option.getD_some] at h
      rw [Option.map_some, Array.setIfInBounds_eq_of_size_le (Nat.le_of_not_lt h)]
  · rfl

/-- The number of an element that is named, or zero, is loaded. -/
theorem loadElement_eq (ctx : Context) (m : Machine ω) (scope : ArrayScope) (index : UInt32)
    (element : Int32) :
    ∃ r, m.Finds (m.elementCell? index element scope) r ∧
      loadElement scope index element ctx m = .ok (r.getD 0) m := by
  cases scope with
  | map =>
    simp only [Machine.elementCell?, loadElement, MapMemory.var?]
    cases m.memory.vars[index.toNat]? with
    | none => exact ⟨none, .outside, rfl⟩
    | some number =>
      simp only [Option.bind_some, MapMemory.element, MapMemory.array?]
      cases MapMemory.index? number with
      | none => exact ⟨none, .outside, rfl⟩
      | some a =>
        cases MapMemory.index? element with
        | none =>
          refine ⟨none, .outside, ?_⟩
          cases (some a).bind (m.memory.arrays[·]?) <;> rfl
        | some i =>
          refine ⟨_, (Machine.finds_range_iff (c := .mapElement a i)
            (lt_size_getD_iff _ a i)).mpr rfl, ?_⟩
          simp only [Machine.cell?, Option.bind_some]
          cases m.memory.arrays[a]? with
          | none => rfl
          | some xs => simp only [Option.bind_some, Array.getD_eq_getD_getElem?]
  | world =>
    refine ⟨_, (Machine.finds_range_iff (c := .worldElement index.toNat element) ?_).mpr rfl, ?_⟩
    · simp [Machine.cell?]
    · simp only [loadElement, Session.worldArray?, Machine.cell?]
      cases m.session.worldArrays[index.toNat]? <;> rfl
  | global =>
    refine ⟨_, (Machine.finds_range_iff (c := .globalElement index.toNat element) ?_).mpr rfl, ?_⟩
    · simp [Machine.cell?]
    · simp only [loadElement, Session.globalArray?, Machine.cell?]
      cases m.session.globalArrays[index.toNat]? <;> rfl

/-- Neither the stack nor the instance matters to an element. -/
theorem loadElement_congr {x : Int32} (h : loadElement scope index element ctx m = .ok x m)
    (m₁ : Machine ω) (hmemory : m₁.memory = m.memory) (hsession : m₁.session = m.session) :
    loadElement scope index element ctx m₁ = .ok x m₁ := by
  cases scope with
  | map => simp only [loadElement, hmemory, (EStateM.Result.ok.inj h).1]
  | world => simp only [loadElement, hsession, (EStateM.Result.ok.inj h).1]
  | global => simp only [loadElement, hsession, (EStateM.Result.ok.inj h).1]

/-- A number is stored into the element that is named, if there is one. -/
theorem storeElement_eq (v : Int32) : storeElement scope index element v ctx m =
    .ok () ((m.elementCell? index element scope).elim m (m.setCell v)) := by
  cases scope with
  | map =>
    simp only [Machine.elementCell?, storeElement, MapMemory.var?]
    cases m.memory.vars[index.toNat]? with
    | none => rfl
    | some number =>
      simp only [Option.bind_some, MapMemory.setElement]
      cases MapMemory.index? number with
      | none => rfl
      | some a =>
        cases MapMemory.index? element with
        | none => rfl
        | some i =>
          by_cases hi : i < (m.memory.arrays.getD a #[]).size
          · simp only [if_pos hi]
            rfl
          · simp only [if_neg hi, modify_outside hi]
            rfl
  | world =>
    simp only [storeElement, Machine.elementCell?]
    by_cases hi : index.toNat < worldCount
    · rw [if_pos hi]
      rfl
    · rw [if_neg hi, Session.setWorldElement, dif_neg hi]
      rfl
  | global =>
    simp only [storeElement, Machine.elementCell?]
    by_cases hi : index.toNat < globalCount
    · rw [if_pos hi]
      rfl
    · rw [if_neg hi, Session.setGlobalElement, dif_neg hi]
      rfl

/-- An update of an element. -/
theorem updateElement_eq_ok (h : updateElement u scope index ctx m = .ok () m') :
    ∃ operand element rest, m.stack = rest.push (.value element) ++ u.taken operand ∧
      Machine.Updated { m with stack := rest } u operand
        (m.elementCell? index element scope) m' := by
  obtain ⟨operand, m₁, hoperand, hrest⟩ := bind_eq_ok h
  obtain ⟨below, hstack, rfl⟩ := updateOperand_eq_ok hoperand
  obtain ⟨element, m₂, hpop, hrest⟩ := bind_eq_ok hrest
  obtain ⟨htop, rfl⟩ := pop_eq_ok hpop
  obtain ⟨r, hfinds, hload⟩ := loadElement_eq ctx
    { m with stack := below.pop } scope index element
  rw [bind_ok hload] at hrest
  have hbelow : below = below.pop.push (.value element) := stack_of_top? htop
  refine ⟨operand, element, below.pop, by rw [← hbelow]; exact hstack, ?_⟩
  by_cases hzero : u.ByZero operand
  · rw [Update.applied_of_byZero hzero] at hrest
    cases hrest
    exact updated_of_byZero hzero
  · rw [Update.applied_of_not_byZero hzero] at hrest
    dsimp only at hrest
    rw [storeElement_eq] at hrest
    cases hrest
    exact updated_of_store hfinds hzero

/-- An update of an element succeeds where the operands are numbers. -/
theorem updateElement_ok (hstack : m.stack = rest.push (.value element) ++ u.taken operand)
    (hbase : ctx.base ≤ rest.size) : ∃ m', updateElement u scope index ctx m = .ok () m' := by
  have hbase' : ctx.base ≤ (rest.push (.value element)).size := by
    rw [Array.size_push]
    omega
  obtain ⟨v, hoperand⟩ := updateOperand_ok hstack hbase'
  have hpop := pop_of_top?
    (top?_of_push (m := { m with stack := rest.push (.value element) }) rfl hbase)
  obtain ⟨r, -, hload⟩ := loadElement_eq ctx
    { m with stack := (rest.push (.value element)).pop } scope index element
  unfold updateElement
  rw [bind_ok hoperand, bind_ok hpop, bind_ok hload]
  cases u.updated? (r.getD 0) v with
  | none => exact ⟨_, rfl⟩
  | some w => exact ⟨_, storeElement_eq w⟩

end Arrays

end Exec

/-! ## Steps -/

namespace Machine

variable {ω : Type} [Host ω] {ctx : Context} {m m' : Machine ω} {inst : Instruction}

/-- A step succeeds as the instruction does on its operands. -/
theorem step_eq_ok_iff {op : Opcode} (h : m.instruction ctx = .ok inst)
    (hop : inst.opcode = some op) :
    Exec.step ctx m = .ok () m' ↔
      Exec.executeWith op inst.operands ctx (m.begin op inst.next) = .ok () m' := by
  have hsame := Exec.same_step ctx m
  rw [stepWhole_instruction h, hop] at hsame
  dsimp only at hsame
  generalize Exec.step ctx m = r at hsame ⊢
  generalize Exec.executeWith op inst.operands ctx (m.begin op inst.next) = r' at hsame ⊢
  cases hsame with
  | ok _ _ => rfl
  | error _ _ _ _ => simp

/-- **Updates of variables and arrays touch one cell.** A step at an update succeeds if its
operands are on the stack and what it names is out of range or a number. It pops the operands and
changes at most the cell that it names, from what that holds to the result in 32 bits. Nothing
changes where no cell is named, and for a zero divisor nothing but the status. An instruction that
pushes a variable or an element pushes what the cell holds, and zero where it is out of range. -/
theorem update_changes_one_cell (hinst : m.instruction ctx = .ok inst) :
    let index := (inst.operands.getD 0 0).toUInt32
    (∀ u scope, inst.opcode = some (.updateVar u scope) →
      (∀ operand rest target r, m.stack = rest ++ u.taken operand → ctx.base ≤ rest.size →
        m.varCell? ctx index scope = some target → Finds { m with stack := rest } target r →
        ∃ m', Exec.step ctx m = .ok () m') ∧
      ∀ m', Exec.step ctx m = .ok () m' →
        ∃ operand rest journal target, m.stack = rest ++ u.taken operand ∧
          m.varCell? ctx index scope = some target ∧
          Updated { m.moveTo inst.next with stack := rest, journal := journal } u operand target
            m') ∧
    (∀ u scope, inst.opcode = some (.updateArray u scope) →
      (∀ operand element (rest : Array Slot),
        m.stack = rest.push (.value element) ++ u.taken operand → ctx.base ≤ rest.size →
        ∃ m', Exec.step ctx m = .ok () m') ∧
      ∀ m', Exec.step ctx m = .ok () m' →
        ∃ operand element rest journal,
          m.stack = rest.push (.value element) ++ u.taken operand ∧
          Updated { m.moveTo inst.next with stack := rest, journal := journal } u operand
            (m.elementCell? index element scope) m') ∧
    (∀ scope, inst.opcode = some (.pushVar scope) → m.stack.size < ctx.config.stackCapacity →
      (m.varCell? ctx index scope = some none → ∃ journal, Exec.step ctx m = .ok ()
        { m.moveTo inst.next with stack := m.stack.push (.value 0), journal := journal }) ∧
      ∀ c x, m.varCell? ctx index scope = some (some c) → m.cell? c = some x →
        ∃ journal, Exec.step ctx m = .ok ()
          { m.moveTo inst.next with stack := m.stack.push (.value x), journal := journal }) ∧
    ∀ scope element, inst.opcode = some (.pushArray scope) → m.top? ctx = some element →
      m.stack.size ≤ ctx.config.stackCapacity →
      (m.elementCell? index element scope = none → ∃ journal, Exec.step ctx m = .ok ()
        { m.moveTo inst.next with
          stack := m.stack.pop.push (.value 0), journal := journal }) ∧
      ∀ c, m.elementCell? index element scope = some c → ∃ x journal, m.cell? c = some x ∧
        Exec.step ctx m = .ok ()
          { m.moveTo inst.next with
            stack := m.stack.pop.push (.value x), journal := journal } := by
  intro index
  refine ⟨?_, ?_, ?_, ?_⟩
  · intro u scope hop
    constructor
    · intro operand rest target r hstack hbase htarget hfinds
      obtain ⟨m', hrun⟩ := Exec.updateVar_ok (m := m.begin (.updateVar u scope) inst.next)
        hstack hbase htarget (hfinds.congr fun _ => rfl)
      exact ⟨m', (step_eq_ok_iff hinst hop).mpr hrun⟩
    · intro m' hstep
      exact Exec.updateVar_eq_ok ((step_eq_ok_iff hinst hop).mp hstep)
  · intro u scope hop
    constructor
    · intro operand element rest hstack hbase
      obtain ⟨m', hrun⟩ : ∃ m', Exec.updateElement u scope index ctx
          (m.begin (.updateArray u scope) inst.next) = .ok () m' :=
        Exec.updateElement_ok hstack hbase
      exact ⟨m', (step_eq_ok_iff hinst hop).mpr hrun⟩
    · intro m' hstep
      obtain ⟨operand, element, rest, hstack, hupdated⟩ :=
        Exec.updateElement_eq_ok ((step_eq_ok_iff hinst hop).mp hstep)
      exact ⟨operand, element, rest, _, hstack, hupdated⟩
  · intro scope hop hroom
    have hpush (x : Int32) (journal : Journal) :=
      Exec.push_of_room (m := { m with journal := journal }) (p := inst.next) x hroom
    constructor
    · intro hnone
      obtain ⟨journal, hload⟩ :=
        Exec.loadVar_outside (m := m.begin (.pushVar scope) inst.next) hnone
      exact ⟨journal,
        (step_eq_ok_iff hinst hop).mpr ((Exec.bind_ok hload _).trans (hpush 0 journal))⟩
    · intro c x hcell hx
      have hload := Exec.loadVar_cell (m := m.begin (.pushVar scope) inst.next) hcell hx
      exact ⟨_, (step_eq_ok_iff hinst hop).mpr ((Exec.bind_ok hload _).trans (hpush x _))⟩
  · intro scope element hop htop hroom
    have hpop := Exec.pop_of_top? (m := m.begin (.pushArray scope) inst.next) htop
    obtain ⟨r, hfinds, hload⟩ := Exec.loadElement_eq ctx m scope index element
    have hload' := Exec.loadElement_congr hload
      { m.begin (.pushArray scope) inst.next with stack := m.stack.pop } rfl rfl
    have hstep : ∃ journal, Exec.step ctx m = .ok ()
        { m.moveTo inst.next with
          stack := m.stack.pop.push (.value (r.getD 0)), journal := journal } := by
      refine ⟨_, (step_eq_ok_iff hinst hop).mpr ((Exec.bind_ok hpop _).trans
        ((Exec.bind_ok hload' _).trans (if_pos ?_)))⟩
      have hsize := congrArg Array.size (Exec.stack_of_top? htop)
      rw [Array.size_push] at hsize
      show m.stack.pop.size < _
      omega
    constructor
    · intro hnone
      have hr : r = none := finds_none_iff.mp (hnone ▸ hfinds)
      rwa [hr] at hstep
    · intro c hcell
      obtain ⟨x, hx, rfl⟩ := finds_some_iff.mp (hcell ▸ hfinds)
      obtain ⟨journal, hrun⟩ := hstep
      exact ⟨x, journal, hx, hrun⟩

end Machine

/-! ## An element that wraps around -/

namespace Wrapping

/-- Subtracts from an element of the array of map variable 3, and then pushes map variable 200,
which does not exist. -/
def context : Context :=
  ⟨{ (default : Program) with image := #[210, 3, 29, 200], layout := .enhanced .compact },
    .standard, 0⟩

/-- Map variable 3 is the number of the second array. -/
def memory : MapMemory :=
  ({ MapMemory.empty with arrays := #[#[9], #[5, 6, -2147483648]] } : MapMemory).setVar 3 1

def machine (pc : UInt32) (stack : Array Slot) : Machine StillWorld :=
  ⟨{ (default : Instance) with pc := pc }, stack, memory, .empty, default, #[], default⟩

def subtract : Instruction := ⟨0, 210, some (.updateArray .sub .map), #[3], 2⟩

def push : Instruction := ⟨2, 29, some (.pushVar .map), #[200], 4⟩

theorem update_changes_one_cell_wrapping :
    (∃ m', Exec.step context (machine 0 #[.value 2, .value 1]) = .ok () m' ∧
      m'.cell? (.mapElement 1 2) = some 2147483647 ∧
      ∀ c, c ≠ .mapElement 1 2 → m'.cell? c = (machine 2 #[]).cell? c) ∧
    ∃ journal, Exec.step context (machine 2 #[]) =
      .ok () { machine 4 #[.value 0] with journal := journal } := by
  have hsubtract : (machine 0 #[.value 2, .value 1]).instruction context = .ok subtract := by
    decide +kernel
  have hpush : (machine 2 #[]).instruction context = .ok push := by decide +kernel
  obtain ⟨-, hupdate, -⟩ := Machine.update_changes_one_cell hsubtract
  obtain ⟨hsucceeds, heffect⟩ := hupdate .sub .map rfl
  obtain ⟨m', hstep⟩ := hsucceeds 1 2 #[] rfl (by decide)
  obtain ⟨operand, element, rest, journal, hstack, hupdated⟩ := heffect m' hstep
  refine ⟨⟨m', hstep, ?_⟩, ?_⟩
  · have hpushed : ((#[] : Array Slot).push (.value 2)).push (.value 1) =
        (rest.push (.value element)).push (.value operand) := by
      rwa [show Update.sub.taken operand = #[.value operand] from rfl,
        Array.append_singleton] at hstack
    obtain ⟨hoperand, hbelow⟩ := Array.push_eq_push.mp hpushed
    obtain ⟨helement, rfl⟩ := Array.push_eq_push.mp hbelow
    obtain rfl : 1 = operand := Slot.value.inj hoperand
    obtain rfl : 2 = element := Slot.value.inj helement
    obtain ⟨x, hx, -, hcells⟩ := hupdated.cell (.mapElement 1 2)
      (fun hzero => absurd hzero.2 (by decide)) (by decide +kernel)
    obtain rfl : -2147483648 = x := by
      have hheld : (machine 2 #[]).cell? (.mapElement 1 2) = some (-2147483648) := by
        decide +kernel
      exact Option.some.inj (hheld.symm.trans hx)
    refine ⟨(hcells _).trans ?_, fun c hc => (hcells c).trans (if_neg hc)⟩
    rw [if_pos rfl]
    decide +kernel
  · obtain ⟨-, -, hread, -⟩ := Machine.update_changes_one_cell hpush
    exact (hread .map rfl (by decide)).1 (by decide +kernel)

end Wrapping

end LevelScript
