import LevelScript.Proofs.Machine.Parts
import Mathlib.Logic.Relation

/-!
# What instructions change

Whatever an instruction does, and wherever it faults, it has made a list of small changes: to the
instance's own part of the stack, to its variables and texts, to the memory of the map, to the
variables of the session, and to the world. An instruction that jumps does not change the status,
and one that does not jump stays where its operands end.

* `Machine.Change`: the small changes.
* `Exec.makes_executeWith`: every opcode makes nothing but them.
* `Machine.changes_run`: so does a whole turn.
-/

namespace LevelScript

namespace Machine

variable {ω : Type} [Host ω]

/-- The machine after its host was asked something. -/
def asked (m : Machine ω) (c : Call) : Machine ω :=
  { m with
    world := (Host.answer c m.world).2
    journal := m.journal.noteAll (Host.remarks ω c) }

/-- One small change. What `moves` may leave the offset, and what `yields` may change the status. -/
inductive Change (ctx : Context) (moves yields : Bool) : Machine ω → Machine ω → Prop where
  | push (m : Machine ω) (s : Slot) (room : m.stack.size < ctx.config.stackCapacity) :
      Change ctx moves yields m { m with stack := m.stack.push s }
  | pop (m : Machine ω) (own : ctx.base < m.stack.size) :
      Change ctx moves yields m { m with stack := m.stack.pop }
  | overwrite (m : Machine ω) (slot : Nat) (v : Int32) (own : ctx.base ≤ slot) :
      Change ctx moves yields m { m with stack := m.stack.setIfInBounds slot (.value v) }
  | truncate (m : Machine ω) (depth : Nat) :
      Change ctx moves yields m { m with stack := m.stack.shrink (ctx.base + depth) }
  | move (m : Machine ω) (pc : UInt32) (frame : Frame) (function : Option UInt32)
      (h : moves = true) :
      Change ctx moves yields m
        { m with inst := { m.inst with pc := pc, frame := frame, function := function } }
  | yield (m : Machine ω) (st : Status) (h : yields = true) :
      Change ctx moves yields m { m with inst := { m.inst with status := st } }
  | locals (m : Machine ω) (i : Nat) (v : Int32) :
      Change ctx moves yields m
        { m with inst := { m.inst with locals := m.inst.locals.setIfInBounds i v } }
  | print (m : Machine ω) (s : String) :
      Change ctx moves yields m { m with inst := { m.inst with print := s } }
  | hudMark (m : Machine ω) (mark : Option UInt32) :
      Change ctx moves yields m { m with inst := { m.inst with hudMark := mark } }
  | result (m : Machine ω) (v : Int32) :
      Change ctx moves yields m { m with inst := { m.inst with result := v } }
  | mapVar (m : Machine ω) (i : Nat) (v : Int32) :
      Change ctx moves yields m { m with memory := m.memory.setVar i v }
  | mapElement (m : Machine ω) (array index v : Int32) :
      Change ctx moves yields m { m with memory := m.memory.setElement array index v }
  | worldVar (m : Machine ω) (i : Nat) (v : Int32) :
      Change ctx moves yields m { m with session := m.session.setWorldVar i v }
  | globalVar (m : Machine ω) (i : Nat) (v : Int32) :
      Change ctx moves yields m { m with session := m.session.setGlobalVar i v }
  | worldElement (m : Machine ω) (i : Nat) (index v : Int32) :
      Change ctx moves yields m { m with session := m.session.setWorldElement i index v }
  | globalElement (m : Machine ω) (i : Nat) (index v : Int32) :
      Change ctx moves yields m { m with session := m.session.setGlobalElement i index v }
  | note (m : Machine ω) (d : Diagnostic) :
      Change ctx moves yields m { m with journal := m.journal.note d }
  | raise (m : Machine ω) (r : Request) :
      Change ctx moves yields m { m with requests := m.requests.push r }
  | ask (m : Machine ω) (c : Call) (h : c.isQuestion = true) :
      Change ctx moves yields m (m.asked c)
  /-- An effect is performed and sent, with nothing between. -/
  | perform (m : Machine ω) (e : Effect) :
      Change ctx moves yields m ((m.asked (.perform e)).asked (.broadcast e))

/-- Small changes, one after the other. -/
abbrev Changes (ctx : Context) (moves yields : Bool) : Machine ω → Machine ω → Prop :=
  Relation.ReflTransGen (Change ctx moves yields)

variable {ctx : Context} {moves yields : Bool} {m m' : Machine ω}

theorem Change.any (h : Change ctx moves yields m m') : Change ctx true true m m' := by
  cases h with
  | move pc frame function => exact .move _ _ _ _ rfl
  | yield st => exact .yield _ _ rfl
  | _ => constructor <;> assumption

theorem Changes.any (h : Changes ctx moves yields m m') : Changes ctx true true m m' :=
  Relation.ReflTransGen.mono (fun _ _ hc => hc.any) _ _ h

/-- What every small change keeps, all of them keep. -/
theorem Changes.keep {P : Machine ω → Prop}
    (hstep : ∀ m m', Change ctx moves yields m m' → P m → P m')
    (h : Changes ctx moves yields m m') (hm : P m) : P m' := by
  induction h with
  | refl => exact hm
  | tail _ hlast ih => exact hstep _ _ hlast ih

end Machine

namespace Exec

variable {ω α β : Type} [Host ω] {moves yields : Bool}

/-- The machine that a computation leaves, also when it faults. -/
def left : EStateM.Result Fault (Machine ω) α → Machine ω
  | .ok _ m => m
  | .error _ m => m

/-- The computation makes nothing but small changes. -/
def Makes (moves yields : Bool) (x : Exec ω α) : Prop :=
  ∀ (ctx : Context) (m : Machine ω), Machine.Changes ctx moves yields m (left (x ctx m))

theorem makes_one {x : Exec ω α}
    (h : ∀ ctx m, Machine.Change ctx moves yields m (left (x ctx m))) : Makes moves yields x :=
  fun ctx m => .single (h ctx m)

@[simp] theorem makes_pure (a : α) : Makes (ω := ω) moves yields (pure a) := fun _ _ => .refl

@[simp] theorem makes_throw (f : Fault) : Makes (ω := ω) (α := α) moves yields (throw f) :=
  fun _ _ => .refl

omit [Host ω] in
theorem bind_eq_ok {x : Exec ω α} {k : α → Exec ω β} {ctx : Context} {m m' : Machine ω} {b : β}
    (h : (x >>= k) ctx m = .ok b m') :
    ∃ a m₁, x ctx m = .ok a m₁ ∧ k a ctx m₁ = .ok b m' := by
  cases hx : x ctx m with
  | ok a m₁ => exact ⟨a, m₁, rfl, by rwa [bind_ok hx] at h⟩
  | error f m₁ => rw [bind_error hx] at h; cases h

theorem changes_bind {x : Exec ω α} {k : α → Exec ω β} {ctx : Context} {m : Machine ω}
    (hx : Machine.Changes ctx moves yields m (left (x ctx m)))
    (hk : ∀ a m', x ctx m = .ok a m' → Machine.Changes ctx moves yields m' (left (k a ctx m'))) :
    Machine.Changes ctx moves yields m (left ((x >>= k) ctx m)) := by
  cases hrun : x ctx m with
  | ok a m' =>
    rw [bind_ok hrun]
    rw [hrun] at hx
    exact hx.trans (hk a m' hrun)
  | error f m' =>
    rw [bind_error hrun]
    rwa [hrun] at hx

@[simp] theorem makes_bind {x : Exec ω α} {k : α → Exec ω β} (hx : Makes moves yields x)
    (hk : ∀ a, Makes moves yields (k a)) : Makes moves yields (x >>= k) :=
  fun ctx m => changes_bind (hx ctx m) fun a m' _ => hk a ctx m'

@[simp] theorem makes_map {x : Exec ω α} (f : α → β) (hx : Makes moves yields x) :
    Makes moves yields (f <$> x) := by
  rw [map_eq_pure_bind]
  exact makes_bind hx fun a => makes_pure _

theorem makes_ite {p : Prop} [Decidable p] {x y : Exec ω α} (hx : Makes moves yields x)
    (hy : Makes moves yields y) : Makes moves yields (if p then x else y) := by
  split <;> assumption

theorem Makes.any {x : Exec ω α} (h : Makes moves yields x) : Makes true true x :=
  fun ctx m => (h ctx m).any

/-! ## The instance, the stack and the host -/

@[simp] theorem makes_read : Makes (ω := ω) moves yields read := fun _ _ => .refl

@[simp] theorem makes_get : Makes (ω := ω) moves yields get := fun _ _ => .refl

@[simp] theorem makes_getInst : Makes (ω := ω) moves yields getInst := fun _ _ => .refl

@[simp] theorem makes_setStatus (s : Status) : Makes (ω := ω) moves true (setStatus s) :=
  makes_one fun _ m => .yield m s rfl

@[simp] theorem makes_jump (pc : UInt32) : Makes (ω := ω) true yields (jump pc) :=
  makes_one fun _ m => .move m pc m.inst.frame m.inst.function rfl

@[simp] theorem makes_note (d : Diagnostic) : Makes (ω := ω) moves yields (note d) :=
  makes_one fun _ m => .note m d

@[simp] theorem makes_raise (r : Request) : Makes (ω := ω) moves yields (raise r) :=
  makes_one fun _ m => .raise m r

@[simp] theorem makes_pushSlot (s : Slot) : Makes (ω := ω) moves yields (pushSlot s) := by
  intro ctx m
  unfold pushSlot
  split
  · exact .single (.push m s ‹_›)
  · exact .refl

@[simp] theorem makes_push (v : Int32) : Makes (ω := ω) moves yields (push v) := makes_pushSlot _

@[simp] theorem makes_pop : Makes (ω := ω) moves yields pop := by
  intro ctx m
  unfold pop
  split
  · exact .refl
  · have hpop : Machine.Change ctx moves yields m { m with stack := m.stack.pop } :=
      .pop m (by omega)
    split
    · exact .single hpop
    · exact .single hpop
    · exact .refl

@[simp] theorem makes_valueAt (slot : Nat) : Makes (ω := ω) moves yields (valueAt slot) := by
  intro ctx m
  unfold valueAt
  split <;> exact .refl

@[simp] theorem makes_peek : Makes (ω := ω) moves yields peek := by
  intro ctx m
  unfold peek
  split
  · exact .refl
  · exact makes_valueAt _ ctx m

@[simp] theorem makes_depth : Makes (ω := ω) moves yields depth := fun _ _ => .refl

@[simp] theorem makes_truncate (depth : Nat) : Makes (ω := ω) moves yields (truncate depth) :=
  makes_one fun _ m => .truncate m depth

theorem changes_setValueAt {ctx : Context} {slot : Nat} (h : ctx.base ≤ slot) (v : Int32)
    (m : Machine ω) : Machine.Changes ctx moves yields m (left (setValueAt slot v ctx m)) := by
  unfold setValueAt
  split
  · exact .single (.overwrite m slot v h)
  · exact .refl

@[simp] theorem makes_pushZeros (n : Nat) : Makes (ω := ω) moves yields (pushZeros n) := by
  induction n with
  | zero => exact makes_pure _
  | succ n ih => simp [pushZeros, ih]

@[simp] theorem makes_valuesFrom (slot n : Nat) :
    Makes (ω := ω) moves yields (valuesFrom slot n) := by
  induction n generalizing slot with
  | zero => exact makes_pure _
  | succ n ih => simp [valuesFrom, ih]

@[simp] theorem makes_text (index : Int32) : Makes (ω := ω) moves yields (text index) := by
  refine makes_bind makes_read fun ctx => ?_
  split <;> simp

@[simp] theorem makes_append (s : String) : Makes (ω := ω) moves yields (append s) :=
  makes_one fun _ m => .print m _

@[simp] theorem makes_takePrint : Makes (ω := ω) moves yields takePrint :=
  makes_one fun _ m => .print m _

/-! ## Variables and arrays -/

@[simp] theorem makes_currentFunction : Makes (ω := ω) moves yields currentFunction :=
  fun _ _ => .refl

@[simp] theorem makes_frameSlot (base index : UInt32) :
    Makes (ω := ω) moves yields (frameSlot base index) := by
  refine makes_bind makes_read fun ctx => makes_bind makes_currentFunction fun f => ?_
  cases f with
  | none => exact makes_throw _
  | some f => dsimp only; split <;> simp

omit [Host ω] in
/-- A slot of the current function is one of the instance's own. -/
theorem base_le_of_frameSlot {base index : UInt32} {ctx : Context} {m m' : Machine ω} {slot : Nat}
    (h : frameSlot base index ctx m = .ok (some slot) m') : ctx.base ≤ slot := by
  obtain ⟨_, _, hread, hrest⟩ := bind_eq_ok h
  cases hread
  obtain ⟨f, _, hf, hrest⟩ := bind_eq_ok hrest
  cases hf
  cases hf : m.inst.function.bind ctx.program.function? with
  | none => rw [hf] at hrest; cases hrest
  | some f =>
    rw [hf] at hrest
    dsimp only at hrest
    split at hrest
    · cases hrest
      omega
    · cases hrest

@[simp] theorem makes_readVar (scope : Scope) (index : UInt32) :
    Makes (ω := ω) moves yields (readVar scope index) := by
  cases scope with
  | script =>
    refine makes_bind makes_getInst fun i => ?_
    cases i.frame with
    | script => exact makes_pure _
    | stack base =>
      refine makes_bind (makes_frameSlot base index) fun slot => ?_
      cases slot <;> simp
  | map => exact fun _ _ => .refl
  | world => exact fun _ _ => .refl
  | global => exact fun _ _ => .refl

/-- A variable of a function is in the instance's own part of the stack. -/
theorem makes_writeFrame (base index : UInt32) (v : Int32) :
    Makes (ω := ω) moves yields (do
      match ← frameSlot base index with
      | some slot =>
        setValueAt slot v
        pure true
      | none => pure false) := by
  intro ctx m
  refine changes_bind (makes_frameSlot base index ctx m) fun slot m' hslot => ?_
  cases slot with
  | none => exact .refl
  | some slot =>
    exact changes_bind (changes_setValueAt (base_le_of_frameSlot hslot) v m') fun _ _ _ => .refl

@[simp] theorem makes_writeVar (scope : Scope) (index : UInt32) (v : Int32) :
    Makes (ω := ω) moves yields (writeVar scope index v) := by
  cases scope with
  | script =>
    refine makes_bind makes_getInst fun i => ?_
    cases i.frame with
    | script => exact makes_one fun _ m => .locals m _ v
    | stack base => exact makes_writeFrame base index v
  | map => exact makes_one fun _ m => .mapVar m _ v
  | world => exact makes_one fun _ m => .worldVar m _ v
  | global => exact makes_one fun _ m => .globalVar m _ v

@[simp] theorem makes_loadElement (scope : ArrayScope) (slot : UInt32) (element : Int32) :
    Makes (ω := ω) moves yields (loadElement scope slot element) := by
  cases scope <;> exact fun _ _ => .refl

@[simp] theorem makes_storeElement (scope : ArrayScope) (slot : UInt32) (element v : Int32) :
    Makes (ω := ω) moves yields (storeElement scope slot element v) := by
  cases scope with
  | map =>
    intro ctx m
    simp only [storeElement, left]
    split
    · exact .single (.mapElement m _ element v)
    · exact .refl
  | world => exact makes_one fun _ m => .worldElement m _ element v
  | global => exact makes_one fun _ m => .globalElement m _ element v

/-! ## Calls, jumps and values -/

theorem makes_throw_bind (f : Fault) (k : α → Exec ω β) : Makes moves yields (throw f >>= k) :=
  fun _ _ => .refl

@[simp] theorem makes_enter (pc : Instance → UInt32) (frame : Frame) (function : Option UInt32) :
    Makes (ω := ω) true yields (modifyInst fun i =>
      { i with frame := frame, function := function, pc := pc i }) :=
  makes_one fun _ m => .move m (pc m.inst) frame function rfl

@[simp] theorem makes_call (index : UInt32) (discard : Bool) :
    Makes (ω := ω) true yields (call index discard) := by
  refine makes_bind makes_read fun ctx => ?_
  cases ctx.program.function? index with
  | none => exact makes_throw _
  | some f =>
    dsimp only
    split
    · exact makes_throw_bind _ _
    · refine makes_bind makes_depth fun depth => ?_
      split
      · exact makes_throw_bind _ _
      · split
        · exact makes_throw_bind _ _
        · refine makes_bind (makes_pushZeros _) fun _ => makes_bind makes_getInst fun inst => ?_
          exact makes_bind (makes_pushSlot _) fun _ => makes_enter _ _ _

@[simp] theorem makes_ret (v : Int32) : Makes (ω := ω) true yields (ret v) := by
  refine makes_bind makes_read fun ctx => makes_bind makes_getInst fun inst => ?_
  cases inst.frame with
  | script => exact makes_throw _
  | stack base =>
    refine makes_bind makes_currentFunction fun f => ?_
    cases f with
    | none => exact makes_throw _
    | some f =>
      refine makes_bind makes_get fun m => ?_
      split
      · refine makes_bind (makes_truncate _) fun _ => makes_bind (makes_enter _ _ _) fun _ => ?_
        split <;> simp
      · exact makes_throw _

@[simp] theorem makes_restart : Makes (ω := ω) true yields restart := by
  simp [restart]

@[simp] theorem makes_branch (whenTrue : Bool) (target : UInt32) :
    Makes (ω := ω) true yields (branch whenTrue target) := by
  refine makes_bind makes_pop fun v => ?_
  split <;> simp

@[simp] theorem makes_caseGoto (value : Int32) (target : UInt32) :
    Makes (ω := ω) true yields (caseGoto value target) := by
  refine makes_bind makes_peek fun v => ?_
  split <;> simp

@[simp] theorem makes_caseGotoFrom (operands : Array Int32) :
    Makes (ω := ω) true yields (caseGotoFrom operands) := by
  refine makes_bind makes_peek fun v => ?_
  split <;> simp

/-! ## The world -/

@[simp] theorem makes_ask {c : Call} (h : c.isQuestion = true) :
    Makes (ω := ω) moves yields (ask c) := makes_one fun _ m => .ask m c h

@[simp] theorem makes_perform (e : Effect) : Makes (ω := ω) moves yields (perform e) :=
  makes_one fun _ m => .perform m e

@[simp] theorem makes_setHudMark (mark : Option UInt32) :
    Makes (ω := ω) moves yields (modifyInst ({ · with hudMark := mark })) :=
  makes_one fun _ m => .hudMark m mark

theorem makes_pushTextLength : Makes (ω := ω) moves yields pushTextLength := by
  refine makes_bind makes_read fun ctx => makes_bind makes_pop fun index => ?_
  split <;> simp

/-! ## All opcodes -/

/-- Of an instruction that does not jump, every part makes small changes. -/
theorem makes_parts (moves : Bool) :
    Parts fun (α : Type) (x _ : Exec ω α) => Makes moves true x where
  pure := makes_pure
  bind := makes_bind
  inst h := makes_bind makes_getInst fun i => h i i.pc i.entry i.segment
  setStatus _ := makes_setStatus _
  setResult v := makes_one fun _ m => .result m v
  clearPrint := makes_one fun _ m => .print m ""
  setHudMark := makes_setHudMark
  append := makes_append
  takePrint := makes_takePrint
  raise := makes_raise
  outOfRange _ _ _ := makes_note _
  push := makes_push
  pop := makes_pop
  peek := makes_peek
  depth := makes_depth
  readVar := makes_readVar
  writeVar := makes_writeVar
  loadElement := makes_loadElement
  storeElement := makes_storeElement
  text := makes_text
  pushTextLength := makes_pushTextLength
  ask := makes_ask
  perform := makes_perform

@[simp] theorem makes_popMany (n : Nat) : Makes (ω := ω) moves true (popMany n) :=
  (makes_parts moves).popMany n

@[simp] theorem makes_pushAll (vs : List Int32) : Makes (ω := ω) moves true (pushAll vs) :=
  (makes_parts moves).pushAll vs

@[simp] theorem makes_argumentFrom (operands : Array Int32) (source : Source) :
    Makes (ω := ω) moves true (argumentFrom operands source) :=
  (makes_parts moves).argumentFrom operands source

@[simp] theorem makes_argumentsFrom (operands : Array Int32) (start n : Nat) (source : Source) :
    Makes (ω := ω) moves true (argumentsFrom operands start n source) :=
  (makes_parts moves).argumentsFrom operands start n source

@[simp] theorem makes_keepResult (v : Int32) : Makes (ω := ω) moves true (keepResult v) :=
  (makes_parts moves).keepResult v

theorem makes_endHudMessage (bold : Bool) : Makes (ω := ω) moves true (endHudMessage bold) := by
  refine makes_bind makes_read fun ctx => makes_bind makes_depth fun depth => ?_
  refine makes_bind makes_getInst fun _ => makes_bind (makes_setHudMark _) fun _ => ?_
  refine makes_ite (makes_throw_bind _ _) ?_
  refine makes_bind (makes_valuesFrom _ _) fun _ => makes_bind (makes_truncate _) fun _ => ?_
  refine makes_bind (makes_popMany 6) fun _ => ?_
  refine makes_bind ((makes_parts moves).printTarget bold) fun _ => ?_
  exact makes_bind makes_takePrint fun _ => (makes_parts moves).act _

theorem makes_executeWith (op : Opcode) (operands : Array Int32) :
    Makes (ω := ω) op.jumps (!op.jumps) (executeWith op operands) := by
  cases hop : op.jumps with
  | false => exact (makes_parts false).executeWith makes_endHudMessage hop operands
  | true =>
    cases op with
    | restart => exact makes_restart
    | goto => exact makes_jump _
    | branch whenTrue => exact makes_branch whenTrue _
    | caseGoto => exact makes_caseGoto _ _
    | caseGotoSorted => exact makes_caseGotoFrom operands
    | call discard => exact makes_call _ discard
    | returnVoid => exact makes_ret 0
    | returnVal => exact makes_bind makes_pop fun v => makes_ret v
    | _ => cases hop

/-! ## Steps and turns -/

theorem makes_stopAtOperands (op : Opcode) (values : Array Int32) (f : Fault) :
    Makes (ω := ω) moves true (stopAtOperands op values f) := by
  unfold stopAtOperands
  split <;> simp

theorem makes_executeAfter (op : Opcode) (next : UInt32) :
    Makes (ω := ω) true true (executeAfter op next) := by
  refine makes_bind makes_read fun ctx => ?_
  dsimp only
  split
  · exact makes_stopAtOperands op _ _
  · exact makes_bind (makes_jump _) fun _ => (makes_executeWith op _).any

theorem makes_obey (script : Int32) (pc raw next : UInt32) :
    Makes (ω := ω) true true (obey script pc raw next) := by
  unfold obey
  cases Opcode.ofNumber? raw with
  | none => exact makes_bind (makes_note _) fun _ => makes_jump _
  | some op => exact makes_bind (makes_note _) fun _ => makes_executeAfter op _

theorem makes_stepWhole : Makes (ω := ω) true true stepWhole := by
  intro ctx m
  cases h : Code.readNumber ctx.program.codeWidth ctx.program.image m.inst.pc with
  | error f =>
    rw [stepWhole_of_error h]
    exact .refl
  | ok r =>
    rw [stepWhole_of_ok h]
    exact makes_obey _ _ _ _ ctx m

end Exec

namespace Machine

variable {ω : Type} [Host ω]

theorem changes_moveTo (ctx : Context) (m : Machine ω) (pc : UInt32) :
    Changes ctx true true m (m.moveTo pc) :=
  .single (.move m pc m.inst.frame m.inst.function rfl)

theorem changes_fail (ctx : Context) (m : Machine ω) (d : Diagnostic) :
    Changes ctx true true m (m.fail d) :=
  (Relation.ReflTransGen.single (.yield m .pleaseRemove rfl)).tail (.note _ d)

theorem changes_step (ctx : Context) (m : Machine ω) : Changes ctx true true m (m.step ctx) := by
  have h := Exec.makes_stepWhole ctx m
  rw [step_eq]
  cases hrun : Exec.stepWhole ctx m with
  | ok a m' => rwa [hrun] at h
  | error f m' =>
    rw [hrun] at h
    exact (h.trans (changes_moveTo ctx m' _)).trans (changes_fail ctx _ _)

theorem changes_loop (ctx : Context) (fuel : Nat) (m : Machine ω) :
    Changes ctx true true m (m.loop ctx fuel).2 := by
  induction fuel generalizing m with
  | zero =>
    unfold loop
    split
    · exact changes_fail ctx m _
    · exact .refl
  | succ fuel ih =>
    unfold loop
    split
    · exact (changes_step ctx m).trans (ih _)
    · exact .refl

theorem changes_endDivision (ctx : Context) (m : Machine ω) :
    Changes ctx true true m m.endDivision := by
  unfold endDivision
  split
  · exact changes_fail ctx m _
  · exact changes_fail ctx m _
  · exact .refl

/-- A turn makes small changes to the machine that has the instance's part on the stack, and takes
the part off again; or the part is lost, since there is no room for it. -/
theorem changes_run (program : Program) (config : Config) (m : Machine ω) :
    (config.stackCapacity < m.stack.size + m.inst.segment.size ∧ (m.run program config).2 =
      { m with inst := { m.inst with segment := #[] } }.fail
        (.cannotResume m.inst.number (.stackOverflow config.stackCapacity))) ∨
    (m.stack.size + m.inst.segment.size ≤ config.stackCapacity ∧
      ∃ m', Changes ⟨program, config, m.stack.size⟩ true true m.resume m' ∧
        (m.run program config).2 = m'.spill m.stack.size) := by
  unfold run
  dsimp only
  split
  · rename_i hfull
    exact .inl ⟨hfull, rfl⟩
  · rename_i hroom
    refine .inr ⟨by omega, _, ?_, rfl⟩
    exact (changes_loop _ _ _).trans (changes_endDivision _ _)

end Machine

end LevelScript
