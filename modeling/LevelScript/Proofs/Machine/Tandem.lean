import Mathlib.Data.List.Forall2
import Mathlib.Tactic.Common
import LevelScript.Proofs.Machine.Parts

/-!
# Two machines side by side

Two machines run the same instructions: on images where the instructions have different offsets,
above different slots of a shared stack, or in two worlds. A `Coupling` says what may differ.
`Tandem x y Q` says that from machines that are alike, `x` and `y` both give values related by `Q`
or both fault in the same way, and leave machines that are alike again.

* `Host.Alike`: two hosts that answer alike.
* `Coupling.Alike`: machines that are alike. The left one's instance also keeps what no
  instruction changes.
* `Coupling.SameFault`, `Coupling.SameNote`: what the two machines report of the same event.
* `tandem_bind` and one lemma for each basic operation of the machine.
-/

namespace LevelScript

/-! ## What may differ -/

/-- Hosts that give the same reply to the same call, in states related by `W`. -/
def Host.Alike {ω₁ ω₂ : Type} [Host ω₁] [Host ω₂] (W : ω₁ → ω₂ → Prop) : Prop :=
  ∀ c w₁ w₂, W w₁ w₂ → (Host.answer c w₁).1 = (Host.answer c w₂).1 ∧
    W (Host.answer c w₁).2 (Host.answer c w₂).2

/-- The instance at other offsets. -/
def Instance.relocate (i : Instance) (pc entry : UInt32) (segment : Array Slot) : Instance :=
  { i with pc := pc, entry := entry, segment := segment }

section

variable (P : UInt32 → UInt32 → Prop)

/-- Slots that differ at most in the offset a call returns to. -/
inductive Slot.Alike : Slot → Slot → Prop
  | value (v : Int32) : Slot.Alike (.value v) (.value v)
  | record {r r' : ReturnRecord} (pc : P r.returnPc r'.returnPc)
      (same : r' = { r with returnPc := r'.returnPc }) : Slot.Alike (.record r) (.record r')

/-- Instances that differ at most in offsets. -/
structure Instance.Alike (i j : Instance) : Prop where
  same : j = i.relocate j.pc j.entry j.segment
  pc : P i.pc j.pc
  entry : P i.entry j.entry
  segment : List.Forall₂ (Slot.Alike P) i.segment.toList j.segment.toList

/-- Functions with frames of the same size, at corresponding offsets if their code is here. -/
structure Function.Alike (f g : Function) : Prop where
  argCount : f.argCount = g.argCount
  localCount : f.localCount = g.localCount
  isImported : f.isImported = g.isImported
  entry : f.isImported = false → P f.entry g.entry

end

theorem Function.Alike.frameSize {P : UInt32 → UInt32 → Prop} {f g : Function}
    (h : f.Alike P g) : f.frameSize = g.frameSize := by
  rw [Function.frameSize, Function.frameSize, h.argCount, h.localCount]

/-- What no instruction changes about the instance that runs. -/
def Instance.Continues (o i : Instance) : Prop :=
  i = { o with pc := i.pc, status := i.status, locals := i.locals, segment := i.segment
               frame := i.frame, function := i.function, print := i.print
               hudMark := i.hudMark, result := i.result }

namespace Instance

theorem Continues.refl (i : Instance) : i.Continues i := rfl

theorem Continues.keeps {o i : Instance} (h : o.Continues i) :
    i.number = o.number ∧ i.typeTag = o.typeTag ∧ i.entry = o.entry ∧
      i.lastTick = o.lastTick := by
  rw [h]
  exact ⟨rfl, rfl, rfl, rfl⟩

/-- All but offsets and the segment is the same. -/
theorem Alike.keeps {P : UInt32 → UInt32 → Prop} {i j : Instance} (h : i.Alike P j) {α : Type}
    (f : Instance → α) (hf : ∀ k pc entry segment, f (relocate k pc entry segment) = f k) :
    f j = f i := by
  rw [h.same, hf]

/-- A change that neither looks at offsets nor changes them, nor what an instance keeps. -/
structure Mild (f : Instance → Instance) : Prop where
  commutes : ∀ i pc entry segment,
    f (relocate i pc entry segment) = (f i).relocate pc entry segment
  continues : ∀ i : Instance, i.Continues (f i)

theorem Continues.trans {o i j : Instance} (h : o.Continues i) (h' : i.Continues j) :
    o.Continues j := by
  unfold Continues at h h' ⊢
  rw [h', h]

theorem Mild.alike {P : UInt32 → UInt32 → Prop} {f : Instance → Instance} (hf : Mild f)
    {i j : Instance} (h : i.Alike P j) : (f i).Alike P (f j) := by
  have hi : f i = (f i).relocate i.pc i.entry i.segment := hf.commutes i i.pc i.entry i.segment
  have hj : f j = (f i).relocate j.pc j.entry j.segment := by rw [← hf.commutes, ← h.same]
  have hpc : (f i).pc = i.pc := by rw [hi, relocate]
  have hentry : (f i).entry = i.entry := by rw [hi, relocate]
  have hsegment : (f i).segment = i.segment := by rw [hi, relocate]
  rw [hj]
  exact ⟨rfl, hpc ▸ h.pc, hentry ▸ h.entry, hsegment ▸ h.segment⟩

end Instance

/-- What may differ between two machines: offsets, worlds, and the slots below their own. -/
structure Coupling (ω₁ ω₂ : Type) where
  /-- Offsets of the same instruction. -/
  pcs : UInt32 → UInt32 → Prop
  worlds : ω₁ → ω₂ → Prop
  /-- Faults that tell of the same event. -/
  faults : Fault → Fault → Prop
  journals : Journal → Journal → Prop
  left : Context
  right : Context
  /-- Slots of others under the left machine's own. -/
  leftBelow : List Slot
  rightBelow : List Slot
  /-- Whether the right machine may have more room, so that only the left one overflows. -/
  slack : Prop
  /-- The left machine's instance at the start. -/
  origin : Instance

namespace Coupling

variable {ω₁ ω₂ : Type}

/-- Machines that differ only in what the coupling allows. -/
structure Alike (c : Coupling ω₁ ω₂) (m₁ : Machine ω₁) (m₂ : Machine ω₂) : Prop where
  inst : m₁.inst.Alike c.pcs m₂.inst
  origin : c.origin.Continues m₁.inst
  /-- No instruction makes an instance wait for the end of a script: that takes a registry. -/
  status : ∀ n, m₁.inst.status = .scriptWait n → c.origin.status = .scriptWait n
  slots : ∃ xs ys, m₁.stack.toList = c.leftBelow ++ xs ∧ m₂.stack.toList = c.rightBelow ++ ys ∧
    List.Forall₂ (Slot.Alike c.pcs) xs ys
  memory : m₁.memory = m₂.memory
  session : m₁.session = m₂.session
  requests : m₁.requests = m₂.requests
  world : c.worlds m₁.world m₂.world
  journal : c.journals m₁.journal m₂.journal

/-- Faults of the two machines in the same place of a computation. Slots are counted from the
bottom of the stack, so they differ where other slots are below. -/
inductive SameFault (c : Coupling ω₁ ω₂) : Fault → Fault → Prop
  | overflow (tight : ¬ c.slack) : SameFault c (.stackOverflow c.left.config.stackCapacity)
      (.stackOverflow c.right.config.stackCapacity)
  | underflow : SameFault c .stackUnderflow .stackUnderflow
  | outOfRange (index : UInt32) : SameFault c
      (.functionOutOfRange index c.left.program.functions.size)
      (.functionOutOfRange index c.right.program.functions.size)
  | unresolved (index : UInt32) :
    SameFault c (.unresolvedFunction index) (.unresolvedFunction index)
  | badFrame (k : Nat) : SameFault c (.badFrame (c.left.base + k)) (.badFrame (c.right.base + k))
  | outside : SameFault c .returnOutsideFunction .returnOutsideFunction

/-- What the two machines note of the same event. -/
inductive SameNote (c : Coupling ω₁ ω₂) : Diagnostic → Diagnostic → Prop
  | cannotResume (script : Int32) (tight : ¬ c.slack) : SameNote c
      (.cannotResume script (.stackOverflow c.left.config.stackCapacity))
      (.cannotResume script (.stackOverflow c.right.config.stackCapacity))
  | runaway (script : Int32) (tight : ¬ c.slack) : SameNote c
      (.runaway script c.left.config.instructionLimit)
      (.runaway script c.right.config.instructionLimit)
  | aborted (script : Int32) {p q : UInt32} {f g : Fault} (pc : c.pcs p q) (fault : c.faults f g) :
      SameNote c (.aborted script p f) (.aborted script q g)
  | divisionByZero (script : Int32) : SameNote c (.divisionByZero script) (.divisionByZero script)
  | modulusByZero (script : Int32) : SameNote c (.modulusByZero script) (.modulusByZero script)
  | unknownOpcode (script : Int32) (number : UInt32) {p q : UInt32} (pc : c.pcs p q) :
      SameNote c (.unknownOpcode script number p) (.unknownOpcode script number q)
  | variableOutOfRange (script : Int32) (scope : Scope) (index : UInt32) : SameNote c
      (.variableOutOfRange script scope index) (.variableOutOfRange script scope index)
  | textMissing (index : Int32) : SameNote c (.textMissing index c.left.config.locale)
      (.textMissing index c.right.config.locale)
  | executing (script : Int32) (op : Opcode) {p q : UInt32} (pc : c.pcs p q) :
      SameNote c (.executing script p op) (.executing script q op)

/-- A coupling of contexts in which the same instructions do the same. -/
structure Fair [Host ω₁] [Host ω₂] (c : Coupling ω₁ ω₂) : Prop where
  hosts : Host.Alike c.worlds
  leftBase : c.left.base = c.leftBelow.length
  rightBase : c.right.base = c.rightBelow.length
  room : c.left.config.stackCapacity + c.right.base ≤ c.right.config.stackCapacity + c.left.base
  tight : ¬ c.slack →
    c.left.config.stackCapacity + c.right.base = c.right.config.stackCapacity + c.left.base
  text : ∀ i, c.left.program.text? i c.left.config.locale =
    c.right.program.text? i c.right.config.locale
  functions : ∀ index, Option.Rel (Function.Alike c.pcs) (c.left.program.function? index)
    (c.right.program.function? index)
  faults : ∀ f g, c.SameFault f g → c.faults f g
  notes : ∀ d e j₁ j₂, c.SameNote d e → c.journals j₁ j₂ → c.journals (j₁.note d) (j₂.note e)
  remarks : ∀ q j₁ j₂, c.journals j₁ j₂ →
    c.journals (j₁.noteAll (Host.remarks ω₁ q)) (j₂.noteAll (Host.remarks ω₂ q))

variable {α β γ δ : Type}

/-- Results of two machines that ran alike. -/
inductive Agree (c : Coupling ω₁ ω₂) (Q : α → β → Prop) :
    EStateM.Result Fault (Machine ω₁) α → EStateM.Result Fault (Machine ω₂) β → Prop
  | ok {a : α} {b : β} {m₁ : Machine ω₁} {m₂ : Machine ω₂} (value : Q a b)
      (alike : c.Alike m₁ m₂) : Agree c Q (.ok a m₁) (.ok b m₂)
  | error {f g : Fault} {m₁ : Machine ω₁} {m₂ : Machine ω₂} (fault : c.faults f g)
      (alike : c.Alike m₁ m₂) : Agree c Q (.error f m₁) (.error g m₂)
  | overflow {n : Nat} {m₁ : Machine ω₁} {r : EStateM.Result Fault (Machine ω₂) β}
      (slack : c.slack) : Agree c Q (.error (.stackOverflow n) m₁) r

/-- Computations that do alike on machines that are alike. -/
def Tandem (c : Coupling ω₁ ω₂) (x : Exec ω₁ α) (y : Exec ω₂ β) (Q : α → β → Prop) : Prop :=
  ∀ m₁ m₂, c.Alike m₁ m₂ → c.Agree Q (x c.left m₁) (y c.right m₂)

/-! ## Sequences -/

section Sequences

variable {c : Coupling ω₁ ω₂} {Q : α → β → Prop} {R : γ → δ → Prop}

theorem tandem_pure {a : α} {b : β} (h : Q a b) :
    c.Tandem (pure a : Exec ω₁ α) (pure b : Exec ω₂ β) Q :=
  fun _ _ hm => .ok h hm

theorem tandem_throw {f g : Fault} (h : c.faults f g) :
    c.Tandem (throw f : Exec ω₁ α) (throw g : Exec ω₂ β) Q :=
  fun _ _ hm => .error h hm

theorem tandem_bind {x : Exec ω₁ α} {y : Exec ω₂ β} {f : α → Exec ω₁ γ} {g : β → Exec ω₂ δ}
    (h : c.Tandem x y Q) (hf : ∀ a b, Q a b → c.Tandem (f a) (g b) R) :
    c.Tandem (x >>= f) (y >>= g) R := by
  intro m₁ m₂ hm
  have hxy := h m₁ m₂ hm
  simp only [bind, ReaderT.bind, EStateM.bind]
  generalize x c.left m₁ = r₁ at hxy ⊢
  generalize y c.right m₂ = r₂ at hxy ⊢
  cases hxy with
  | ok value alike => exact hf _ _ value _ _ alike
  | error fault alike => exact .error fault alike
  | overflow slack => exact .overflow slack

/-- The usual case: both sides give the same value. -/
theorem tandem_bind_eq {x : Exec ω₁ α} {y : Exec ω₂ α} {f : α → Exec ω₁ γ} {g : α → Exec ω₂ δ}
    (h : c.Tandem x y Eq) (hf : ∀ a, c.Tandem (f a) (g a) R) :
    c.Tandem (x >>= f) (y >>= g) R :=
  tandem_bind h fun a _ hab => hab ▸ hf a

theorem tandem_read_bind {f : Context → Exec ω₁ γ} {g : Context → Exec ω₂ δ}
    (h : c.Tandem (f c.left) (g c.right) R) : c.Tandem (read >>= f) (read >>= g) R :=
  h

theorem tandem_get_bind {f : Machine ω₁ → Exec ω₁ γ} {g : Machine ω₂ → Exec ω₂ δ}
    (h : ∀ m₁ m₂, c.Alike m₁ m₂ → c.Agree R (f m₁ c.left m₁) (g m₂ c.right m₂)) :
    c.Tandem (get >>= f) (get >>= g) R :=
  h

theorem tandem_throw_bind {e e' : Fault} (h : c.faults e e') {f : α → Exec ω₁ γ}
    {g : β → Exec ω₂ δ} :
    c.Tandem ((throw e : Exec ω₁ α) >>= f) ((throw e' : Exec ω₂ β) >>= g) R :=
  fun _ _ hm => .error h hm

end Sequences

/-! ## The instance and the journal -/

section Basics

variable {c : Coupling ω₁ ω₂} {m₁ : Machine ω₁} {m₂ : Machine ω₂} {R : γ → δ → Prop}

theorem Alike.mild (hm : c.Alike m₁ m₂) {f : Instance → Instance} (hf : Instance.Mild f)
    (hs : ∀ i n, (f i).status = .scriptWait n → i.status = .scriptWait n) :
    c.Alike { m₁ with inst := f m₁.inst } { m₂ with inst := f m₂.inst } :=
  { hm with
    inst := hf.alike hm.inst
    origin := hm.origin.trans (hf.continues _)
    status := fun n h => hm.status n (hs _ n h) }

theorem Alike.moved (hm : c.Alike m₁ m₂) {p q : UInt32} (h : c.pcs p q) :
    c.Alike (m₁.moveTo p) (m₂.moveTo q) :=
  { hm with
    inst := ⟨congrArg (fun i : Instance => { i with pc := q }) hm.inst.same, h, hm.inst.entry,
      hm.inst.segment⟩
    origin := hm.origin.trans rfl }

theorem tandem_modifyInst {f : Instance → Instance} (hf : Instance.Mild f)
    (hs : ∀ i n, (f i).status = .scriptWait n → i.status = .scriptWait n) :
    c.Tandem (Exec.modifyInst f) (Exec.modifyInst f) Eq :=
  fun _ _ hm => .ok rfl (hm.mild hf hs)

theorem tandem_setStatus {s : Status} (h : ∀ n, s ≠ .scriptWait n) :
    c.Tandem (Exec.setStatus s) (Exec.setStatus s) Eq :=
  tandem_modifyInst ⟨fun _ _ _ _ => rfl, fun _ => rfl⟩ fun _ n hn => absurd hn (h n)

theorem tandem_jump {p q : UInt32} (h : c.pcs p q) : c.Tandem (Exec.jump p) (Exec.jump q) Eq :=
  fun _ _ hm => .ok rfl (hm.moved h)

theorem tandem_getInst_bind {f : Instance → Exec ω₁ γ} {g : Instance → Exec ω₂ δ}
    (h : ∀ i pc entry segment, c.pcs i.pc pc →
      c.Tandem (f i) (g (i.relocate pc entry segment)) R) :
    c.Tandem (Exec.getInst >>= f) (Exec.getInst >>= g) R := by
  intro m₁ m₂ hm
  have := h m₁.inst m₂.inst.pc m₂.inst.entry m₂.inst.segment hm.inst.pc
  rw [← hm.inst.same] at this
  exact this m₁ m₂ hm

theorem tandem_raise (r : Request) : c.Tandem (Exec.raise r) (Exec.raise r) Eq :=
  fun _ _ hm => .ok rfl { hm with requests := congrArg (·.push r) hm.requests }

end Basics

/-! ## The operand stack -/

/-- Related lists are both empty or both end in related elements. -/
theorem forall₂_concat_cases {R : α → β → Prop} {xs : List α} {ys : List β}
    (h : List.Forall₂ R xs ys) : xs = [] ∧ ys = [] ∨
      ∃ xs' x ys' y, xs = xs' ++ [x] ∧ ys = ys' ++ [y] ∧ List.Forall₂ R xs' ys' ∧ R x y := by
  rcases List.eq_nil_or_concat' xs with rfl | ⟨xs', x, rfl⟩
  · exact .inl ⟨rfl, List.forall₂_nil_left_iff.mp h⟩
  · rcases List.eq_nil_or_concat' ys with rfl | ⟨ys', y, rfl⟩
    · simp at h
    · have hrev := List.rel_reverse h
      simp only [List.reverse_append, List.reverse_cons, List.reverse_nil, List.nil_append,
        List.cons_append, List.forall₂_cons, List.forall₂_reverse_iff] at hrev
      exact .inr ⟨xs', x, ys', y, rfl, rfl, hrev.2, hrev.1⟩

/-- Related lists at one place. -/
theorem rel_getElem? {R : α → β → Prop} {xs : List α} {ys : List β} (h : List.Forall₂ R xs ys)
    (k : Nat) : Option.Rel R xs[k]? ys[k]? := by
  induction h generalizing k with
  | nil => simp
  | cons hxy _ ih =>
    cases k with
    | zero => simpa using hxy
    | succ k => simpa using ih k

theorem forall₂_set {R : α → β → Prop} {xs : List α} {ys : List β} (h : List.Forall₂ R xs ys)
    (k : Nat) {x : α} {y : β} (hxy : R x y) : List.Forall₂ R (xs.set k x) (ys.set k y) := by
  induction h generalizing k with
  | nil => exact .nil
  | cons hab hrest ih =>
    cases k with
    | zero => exact .cons hxy hrest
    | succ k => exact .cons hab (ih k)

section Stack

variable {c : Coupling ω₁ ω₂} {m₁ : Machine ω₁} {m₂ : Machine ω₂}

/-- Stacks that are alike again. -/
theorem Alike.withStack (hm : c.Alike m₁ m₂) {s₁ s₂ : Array Slot} (xs ys : List Slot)
    (h₁ : s₁.toList = c.leftBelow ++ xs) (h₂ : s₂.toList = c.rightBelow ++ ys)
    (h : List.Forall₂ (Slot.Alike c.pcs) xs ys) :
    c.Alike { m₁ with stack := s₁ } { m₂ with stack := s₂ } :=
  { hm with slots := ⟨xs, ys, h₁, h₂, h⟩ }

variable [Host ω₁] [Host ω₂] (hc : c.Fair)

include hc

theorem tandem_note {d e : Diagnostic} (h : c.SameNote d e) :
    c.Tandem (Exec.note d) (Exec.note e) Eq :=
  fun _ _ hm => .ok rfl { hm with journal := hc.notes _ _ _ _ h hm.journal }

theorem Fair.badFrame {p q k : Nat} (hp : p = c.left.base + k)
    (hq : q = c.right.base + k) : c.faults (.badFrame p) (.badFrame q) := by
  rw [hp, hq]
  exact hc.faults _ _ (.badFrame k)

/-- The slots of each machine's own instance. -/
structure Own (c : Coupling ω₁ ω₂) (m₁ : Machine ω₁) (m₂ : Machine ω₂) (xs ys : List Slot) :
    Prop where
  left : m₁.stack.toList = c.leftBelow ++ xs
  right : m₂.stack.toList = c.rightBelow ++ ys
  alike : List.Forall₂ (Slot.Alike c.pcs) xs ys
  leftSize : m₁.stack.size = c.left.base + xs.length
  rightSize : m₂.stack.size = c.right.base + xs.length

theorem Alike.own (hm : c.Alike m₁ m₂) : ∃ xs ys, c.Own m₁ m₂ xs ys := by
  obtain ⟨xs, ys, hx, hy, hr⟩ := hm.slots
  have h₁ := congrArg List.length hx
  have h₂ := congrArg List.length hy
  rw [List.length_append, Array.length_toList] at h₁ h₂
  exact ⟨xs, ys, hx, hy, hr, by rw [h₁, hc.leftBase], by rw [h₂, hc.rightBase, hr.length_eq]⟩

theorem tandem_pushSlot {s t : Slot} (h : s.Alike c.pcs t) :
    c.Tandem (Exec.pushSlot s) (Exec.pushSlot t) Eq := by
  intro m₁ m₂ hm
  obtain ⟨xs, ys, ho⟩ := hm.own hc
  have h₁ := ho.leftSize
  have h₂ := ho.rightSize
  have hroom := hc.room
  unfold Exec.pushSlot
  by_cases hl : m₁.stack.size < c.left.config.stackCapacity
  · rw [if_pos hl, if_pos (by omega)]
    refine .ok rfl (hm.withStack (xs ++ [s]) (ys ++ [t]) ?_ ?_ ?_)
    · rw [Array.toList_push, ho.left, List.append_assoc]
    · rw [Array.toList_push, ho.right, List.append_assoc]
    · exact List.rel_append ho.alike (.cons h .nil)
  · rw [if_neg hl]
    by_cases hs : c.slack
    · exact .overflow hs
    · have htight := hc.tight hs
      rw [if_neg (by omega)]
      exact .error (hc.faults _ _ (.overflow hs)) hm

theorem tandem_push (v : Int32) : c.Tandem (Exec.push v) (Exec.push v) Eq :=
  tandem_pushSlot hc (.value v)

theorem tandem_pop : c.Tandem Exec.pop Exec.pop Eq := by
  intro m₁ m₂ hm
  obtain ⟨xs, ys, ho⟩ := hm.own hc
  have h₁ := ho.leftSize
  have h₂ := ho.rightSize
  unfold Exec.pop
  rcases forall₂_concat_cases ho.alike with ⟨rfl, rfl⟩ | ⟨xs', x, ys', y, rfl, rfl, hr, hxy⟩
  · simp only [List.length_nil, Nat.add_zero] at h₁ h₂
    rw [if_pos (by omega), if_pos (by omega)]
    exact .error (hc.faults _ _ .underflow) hm
  · simp only [List.length_append, List.length_singleton] at h₁ h₂
    rw [if_neg (by omega), if_neg (by omega)]
    have hb₁ : m₁.stack.back? = some x := by
      rw [← Array.getLast?_toList, ho.left, ← List.append_assoc, List.getLast?_concat]
    have hb₂ : m₂.stack.back? = some y := by
      rw [← Array.getLast?_toList, ho.right, ← List.append_assoc, List.getLast?_concat]
    have hp₁ : m₁.stack.pop.toList = c.leftBelow ++ xs' := by
      rw [Array.toList_pop, ho.left, ← List.append_assoc, List.dropLast_concat]
    have hp₂ : m₂.stack.pop.toList = c.rightBelow ++ ys' := by
      rw [Array.toList_pop, ho.right, ← List.append_assoc, List.dropLast_concat]
    rw [hb₁, hb₂]
    cases hxy with
    | value v => exact .ok rfl (hm.withStack _ _ hp₁ hp₂ hr)
    | record pc same =>
      exact .error (hc.badFrame (k := xs'.length) (by omega) (by omega))
        (hm.withStack _ _ hp₁ hp₂ hr)

/-- Slots of the instance, counted from its own first one. -/
theorem Own.getElem? {xs ys : List Slot} (ho : c.Own m₁ m₂ xs ys) (k : Nat) :
    m₁.stack[c.left.base + k]? = xs[k]? ∧ m₂.stack[c.right.base + k]? = ys[k]? := by
  rw [← Array.getElem?_toList, ← Array.getElem?_toList, ho.left, ho.right, hc.leftBase,
    hc.rightBase, List.getElem?_append_right (Nat.le_add_right _ _),
    List.getElem?_append_right (Nat.le_add_right _ _), Nat.add_sub_cancel_left,
    Nat.add_sub_cancel_left]
  exact ⟨rfl, rfl⟩

theorem tandem_valueAt (k : Nat) :
    c.Tandem (Exec.valueAt (c.left.base + k)) (Exec.valueAt (c.right.base + k)) Eq := by
  intro m₁ m₂ hm
  obtain ⟨xs, ys, ho⟩ := hm.own hc
  obtain ⟨h₁, h₂⟩ := ho.getElem? hc k
  unfold Exec.valueAt
  rw [h₁, h₂]
  have hk := rel_getElem? ho.alike k
  generalize xs[k]? = a at hk ⊢
  generalize ys[k]? = b at hk ⊢
  have hfault := hc.badFrame (k := k) rfl rfl
  cases hk with
  | none => exact .error hfault hm
  | some hxy =>
    cases hxy with
    | value v => exact .ok rfl hm
    | record pc same => exact .error hfault hm

theorem tandem_peek : c.Tandem Exec.peek Exec.peek Eq := by
  intro m₁ m₂ hm
  obtain ⟨xs, ys, ho⟩ := hm.own hc
  have h₁ := ho.leftSize
  have h₂ := ho.rightSize
  unfold Exec.peek
  by_cases hx : xs.length = 0
  · rw [if_pos (by omega), if_pos (by omega)]
    exact .error (hc.faults _ _ .underflow) hm
  · rw [if_neg (by omega), if_neg (by omega),
      show m₁.stack.size - 1 = c.left.base + (xs.length - 1) by omega,
      show m₂.stack.size - 1 = c.right.base + (xs.length - 1) by omega]
    exact tandem_valueAt hc _ m₁ m₂ hm

theorem tandem_depth : c.Tandem Exec.depth Exec.depth Eq := by
  intro m₁ m₂ hm
  obtain ⟨xs, ys, ho⟩ := hm.own hc
  refine .ok ?_ hm
  rw [ho.leftSize, ho.rightSize, Nat.add_sub_cancel_left, Nat.add_sub_cancel_left]

theorem tandem_truncate (depth : Nat) :
    c.Tandem (Exec.truncate depth) (Exec.truncate depth) Eq := by
  intro m₁ m₂ hm
  obtain ⟨xs, ys, ho⟩ := hm.own hc
  refine .ok rfl (hm.withStack (xs.take depth) (ys.take depth) ?_ ?_ ?_)
  · rw [Array.toList_shrink, ho.left, hc.leftBase, List.take_length_add_append]
  · rw [Array.toList_shrink, ho.right, hc.rightBase, List.take_length_add_append]
  · exact List.forall₂_take depth ho.alike

theorem tandem_setValueAt (k : Nat) (v : Int32) :
    c.Tandem (Exec.setValueAt (c.left.base + k) v) (Exec.setValueAt (c.right.base + k) v) Eq := by
  intro m₁ m₂ hm
  obtain ⟨xs, ys, ho⟩ := hm.own hc
  obtain ⟨h₁, h₂⟩ := ho.getElem? hc k
  unfold Exec.setValueAt
  rw [h₁, h₂]
  have hk := rel_getElem? ho.alike k
  generalize xs[k]? = a at hk ⊢
  generalize ys[k]? = b at hk ⊢
  have hfault := hc.badFrame (k := k) rfl rfl
  cases hk with
  | none => exact .error hfault hm
  | some hxy =>
    cases hxy with
    | record pc same => exact .error hfault hm
    | value w =>
      refine .ok rfl (hm.withStack (xs.set k (.value v)) (ys.set k (.value v)) ?_ ?_ ?_)
      · rw [Array.toList_setIfInBounds, ho.left, hc.leftBase,
          List.set_append_right _ _ (Nat.le_add_right _ _), Nat.add_sub_cancel_left]
      · rw [Array.toList_setIfInBounds, ho.right, hc.rightBase,
          List.set_append_right _ _ (Nat.le_add_right _ _), Nat.add_sub_cancel_left]
      · exact forall₂_set ho.alike k (.value v)

end Stack

/-! ## The host -/

section World

variable [Host ω₁] [Host ω₂] {c : Coupling ω₁ ω₂} (hc : c.Fair)

include hc

theorem tandem_ask (q : Call) : c.Tandem (Exec.ask q) (Exec.ask q) Eq := by
  intro m₁ m₂ hm
  obtain ⟨hreply, hworld⟩ := hc.hosts q _ _ hm.world
  exact .ok hreply { hm with world := hworld, journal := hc.remarks q _ _ hm.journal }

theorem tandem_perform (e : Effect) :
    c.Tandem (Exec.perform e) (Exec.perform e) Eq :=
  tandem_bind_eq (tandem_ask hc (.perform e)) fun _ =>
    tandem_bind_eq (tandem_ask hc (.broadcast e)) fun _ => tandem_pure rfl

theorem tandem_text (index : Int32) :
    c.Tandem (Exec.text index) (Exec.text index) Eq := by
  refine tandem_read_bind ?_
  rw [hc.text]
  split
  · exact tandem_pure rfl
  · exact tandem_bind_eq (tandem_note hc (.textMissing index)) fun _ => tandem_pure rfl

end World

end Coupling

end LevelScript
