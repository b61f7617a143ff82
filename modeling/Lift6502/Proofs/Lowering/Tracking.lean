import Lift6502.Binding
import Lift6502.Lowering.Routine
import Lift6502.Proofs.Ssa.Segment
import Lift6502.Proofs.Ssa.Typing

/-! What is known while the code of a block is built. A scene is a block under
construction together with a run of the finished function that has come to
this block. Facts about values are kept along with the code: what type a value
has, that the block may use it, and what it holds in the run. -/

namespace Lift6502

open Ssa

/-- The functions that lifted code calls, with their parameters and results. -/
inductive Platform.Declares (platform : Platform) : String → List Ty → Ty → Prop
  | routine (entry : Address) :
      Declares platform (routineName entry) (Register.all.map Register.type) .regs
  | read (hplatform : platform = .nes) : Declares platform Platform.hostRead [.i16] .i8
  | write (hplatform : platform = .nes) :
      Declares platform Platform.hostWrite [.i16, .i8] .void

/-- An environment through which the accesses of a platform reach a host. -/
structure Platform.Serves {σ : Type} (platform : Platform) (host : Host σ)
    (environment : Environment σ) : Prop where
  load : environment.load = (platform.bind host).load
  store : environment.store = (platform.bind host).store
  call : ∀ callee, callee = Platform.hostRead ∨ callee = Platform.hostWrite →
    environment.call callee = (platform.bind host).call callee
  mirrored : platform = .nes → Platform.Mirrored host

/-- The frame in which code has been added to a block. -/
def Ssa.Function.frame (start : Function) (block : BlockId) (code : List Value)
    (values : PerRegister ValueId) : Frame :=
  ⟨start.append block code, block, values⟩

theorem Frame.frame_self (frame : Frame) :
    frame.function.frame frame.block [] frame.registers = frame := by
  unfold Function.frame
  rw [Function.append_nil]

structure Scene (σ : Type) where
  platform : Platform
  host : Host σ
  /-- The function before any code is added to the block. -/
  start : Function
  block : BlockId
  block_lt : block.index < start.blocks.size
  /-- The values of `start` that the block may use. -/
  given : ValueId → Prop
  /-- The finished function and its arguments. -/
  activation : Activation
  environment : Environment σ
  serves : platform.Serves host environment
  /-- What the run has computed before it comes to the added code. -/
  locals : Locals
  state : σ
  /-- Code that stays at the front of the added code. -/
  front : List Value

/-- A value, its type, and what it holds. -/
structure Fact where
  id : ValueId
  type : Ty
  datum : Datum

namespace Scene

variable {σ : Type} (scene : Scene σ)

/-- Where the added code starts in the arena. -/
def base : Nat :=
  scene.start.values.size

def function (code : List Value) : Function :=
  scene.start.append scene.block code

abbrev frame (code : List Value) (registers : PerRegister ValueId) : Frame :=
  scene.start.frame scene.block code registers

/-- An entry of the added code is typed and refers to given values and to
entries before it. -/
structure Admits (code : List Value) (position : Nat) (value : Value) : Prop where
  typed : value.inst.Typed (scene.function code).type? scene.platform.Declares value.type
  inScope : ∀ id ∈ value.inst.operands, scene.given id ∨
    (scene.base ≤ id.index ∧ id.index < scene.base + position)
  isPhi : value.inst.isPhi = false
  notParam : ∀ index, value.inst ≠ .param index
  unnamed : value.name = none

/-- A fact as far as the function under construction shows it. -/
structure Known (code : List Value) (fact : Fact) : Prop where
  entry : ∃ value, (scene.function code).values[fact.id.index]? = some value ∧
    value.type = fact.type ∧
    ∀ bits, value.inst.constant? = some bits → fact.datum = .word bits
  inScope : scene.given fact.id ∨ scene.base ≤ fact.id.index
  fits : fact.datum.Fits fact.type

/-- The finished function has the added code. -/
def Hosts (code : List Value) : Prop :=
  ∀ position value, code[position]? = some value →
    scene.activation.function.values[scene.base + position]? = some value

/-- A fact as the run shows it. -/
structure Shows (locals : Locals) (fact : Fact) : Prop where
  type : scene.activation.type? fact.id = some fact.type
  datum : scene.activation.datum? locals fact.id = some fact.datum

/-- The added code is sound, the facts hold, and the run gets through the code
to `state`. -/
structure Tracks (code : List Value) (facts : List Fact) (state : σ) : Prop where
  front : ∃ back, code = scene.front ++ back
  admits : ∀ position value, code[position]? = some value → scene.Admits code position value
  known : ∀ fact ∈ facts, scene.Known code fact
  computed : scene.Hosts code → ∃ locals,
    scene.activation.computeAll scene.environment (placed scene.base code) scene.locals
      scene.state = some (locals, state) ∧
    ∀ fact ∈ facts, scene.Shows locals fact

variable {scene} {code more : List Value} {fact : Fact} {facts : List Fact} {state : σ}

/-! Growth of the code -/

theorem function_append : (scene.function code).append scene.block more =
    scene.function (code ++ more) :=
  Function.append_append _ _ _ _

@[simp] theorem function_values_size :
    (scene.function code).values.size = scene.base + code.length :=
  Function.append_values_size _ _ _

theorem block_lt_function : scene.block.index < (scene.function code).blocks.size := by
  unfold function
  rw [Function.append_blocks_size]
  exact scene.block_lt

theorem function_value_append {index : Nat} {value : Value}
    (hvalue : (scene.function code).values[index]? = some value) :
    (scene.function (code ++ more)).values[index]? = some value := by
  obtain ⟨hlt, _⟩ := Array.getElem?_eq_some_iff.mp hvalue
  rw [← function_append, Function.append_value_before _ _ _ hlt, hvalue]

theorem type?_append {id : ValueId} {type : Ty}
    (htype : (scene.function code).type? id = some type) :
    (scene.function (code ++ more)).type? id = some type := by
  rw [← function_append]
  exact Function.type?_append htype scene.block more

theorem Admits.append {position : Nat} {value : Value}
    (hadmits : scene.Admits code position value) :
    scene.Admits (code ++ more) position value where
  typed := hadmits.typed.mono (fun _ _ _ htype => type?_append htype)
    (fun _ _ _ _ hdeclares => hdeclares)
  inScope := hadmits.inScope
  isPhi := hadmits.isPhi
  notParam := hadmits.notParam
  unnamed := hadmits.unnamed

theorem Known.append (hknown : scene.Known code fact) : scene.Known (code ++ more) fact where
  entry := by
    obtain ⟨value, hvalue, hrest⟩ := hknown.entry
    exact ⟨value, function_value_append hvalue, hrest⟩
  inScope := hknown.inScope
  fits := hknown.fits

theorem Known.index_lt (hknown : scene.Known code fact) :
    fact.id.index < scene.base + code.length := by
  obtain ⟨value, hvalue, _⟩ := hknown.entry
  rw [← function_values_size]
  exact (Array.getElem?_eq_some_iff.mp hvalue).1

theorem Known.type? (hknown : scene.Known code fact) :
    (scene.function code).type? fact.id = some fact.type := by
  obtain ⟨value, hvalue, htype, _⟩ := hknown.entry
  unfold Function.type?
  rw [hvalue, Option.map_some, htype]

theorem Hosts.of_append (hhosts : scene.Hosts (code ++ more)) : scene.Hosts code := by
  intro position value hvalue
  refine hhosts position value ?_
  rw [List.getElem?_append_left (List.getElem?_eq_some_iff.mp hvalue).1]
  exact hvalue

theorem Hosts.last {value : Value} (hhosts : scene.Hosts (code ++ [value])) :
    scene.activation.function.values[scene.base + code.length]? = some value :=
  hhosts code.length value (by simp)

theorem Shows.word? {locals : Locals} {id : ValueId} {type : Ty} {bits : UInt16}
    (hshows : scene.Shows locals ⟨id, type, .word bits⟩) :
    scene.activation.word? locals id = some bits := by
  unfold Activation.word?
  rw [hshows.datum]
  rfl

theorem Shows.set {locals : Locals} {id : ValueId} {datum : Datum} (hne : fact.id ≠ id)
    (hshows : scene.Shows locals fact) : scene.Shows (locals.set id datum) fact where
  type := hshows.type
  datum := by
    rw [← hshows.datum]
    unfold Activation.datum? Locals.set
    simp only [hne, if_false]

theorem Tracks.weaken {fewer : List Fact} (htracks : scene.Tracks code facts state)
    (hsubset : ∀ fact ∈ fewer, fact ∈ facts) : scene.Tracks code fewer state where
  front := htracks.front
  admits := htracks.admits
  known fact hfact := htracks.known fact (hsubset fact hfact)
  computed hhosts := by
    obtain ⟨locals, hlocals, hshows⟩ := htracks.computed hhosts
    exact ⟨locals, hlocals, fun fact hfact => hshows fact (hsubset fact hfact)⟩

theorem Tracks.keepFirst (dropped : List Fact)
    (htracks : scene.Tracks code (fact :: (dropped ++ facts)) state) :
    scene.Tracks code (fact :: facts) state := by
  refine htracks.weaken fun kept hkept => ?_
  rcases List.mem_cons.mp hkept with rfl | hkept
  · exact List.mem_cons_self
  · exact List.mem_cons_of_mem _ (List.mem_append_right _ hkept)

/-! Code that stays -/

/-- The scene in which some code is known to stay at the front. -/
def keeping (scene : Scene σ) (front : List Value) : Scene σ :=
  { scene with front }

theorem Tracks.keep (htracks : scene.Tracks code facts state) :
    (scene.keeping code).Tracks code facts state where
  front := ⟨[], (List.append_nil _).symm⟩
  admits position value hvalue :=
    have hadmits := htracks.admits position value hvalue
    ⟨hadmits.typed, hadmits.inScope, hadmits.isPhi, hadmits.notParam, hadmits.unnamed⟩
  known fact hfact :=
    have hknown := htracks.known fact hfact
    ⟨hknown.entry, hknown.inScope, hknown.fits⟩
  computed hhosts := by
    obtain ⟨locals, hlocals, hshows⟩ := htracks.computed hhosts
    exact ⟨locals, hlocals, fun fact hfact => ⟨(hshows fact hfact).type, (hshows fact hfact).datum⟩⟩

/-- What is kept can be forgotten, once it has been seen to be longer. -/
theorem Tracks.release {front : List Value} (hfront : ∃ back, front = scene.front ++ back)
    (htracks : (scene.keeping front).Tracks code facts state) :
    (∃ back, code = front ++ back) ∧ scene.Tracks code facts state := by
  refine ⟨htracks.front, ?_, ?_, ?_, ?_⟩
  · obtain ⟨back, rfl⟩ := hfront
    obtain ⟨rest, hrest⟩ := htracks.front
    exact ⟨back ++ rest, hrest.trans (List.append_assoc _ _ _)⟩
  · intro position value hvalue
    have hadmits := htracks.admits position value hvalue
    exact ⟨hadmits.typed, hadmits.inScope, hadmits.isPhi, hadmits.notParam, hadmits.unnamed⟩
  · intro fact hfact
    have hknown := htracks.known fact hfact
    exact ⟨hknown.entry, hknown.inScope, hknown.fits⟩
  · intro hhosts
    obtain ⟨locals, hlocals, hshows⟩ := htracks.computed hhosts
    exact ⟨locals, hlocals, fun fact hfact => ⟨(hshows fact hfact).type, (hshows fact hfact).datum⟩⟩

end Scene

namespace Ssa.Activation

variable {σ : Type}

theorem computeAll_append (activation : Activation) (environment : Environment σ)
    (front back : List ValueId) (locals : Locals) (state : σ) :
    activation.computeAll environment (front ++ back) locals state =
      (activation.computeAll environment front locals state).bind fun reached =>
        activation.computeAll environment back reached.1 reached.2 := by
  induction front generalizing locals state with
  | nil => rfl
  | cons id rest ih =>
      simp only [List.cons_append, computeAll, Option.bind_eq_bind]
      cases activation.compute environment locals id state with
      | none => rfl
      | some reached => exact ih reached.1 reached.2

@[simp] theorem computeAll_singleton (activation : Activation) (environment : Environment σ)
    (id : ValueId) (locals : Locals) (state : σ) :
    activation.computeAll environment [id] locals state =
      activation.compute environment locals id state := by
  simp only [computeAll, Option.bind_eq_bind]
  cases activation.compute environment locals id state <;> rfl

end Ssa.Activation

namespace Scene

variable {σ : Type} {scene : Scene σ} {code : List Value} {facts : List Fact} {state : σ}

/-! Single entries -/

theorem Known.last {type : Ty} {inst : Inst} {datum : Datum} (hfits : datum.Fits type)
    (hconstant : ∀ bits, inst.constant? = some bits → datum = .word bits) :
    scene.Known (code ++ [⟨inst, type, none⟩]) ⟨⟨scene.base + code.length⟩, type, datum⟩ where
  entry := by
    refine ⟨⟨inst, type, none⟩, ?_, rfl, hconstant⟩
    show (scene.start.append scene.block _).values[scene.start.values.size + code.length]? = _
    rw [Function.append_value_within]
    simp
  inScope := .inr (Nat.le_add_right _ _)
  fits := hfits

theorem Tracks.front_snoc (htracks : scene.Tracks code facts state) (value : Value) :
    ∃ back, code ++ [value] = scene.front ++ back := by
  obtain ⟨back, rfl⟩ := htracks.front
  exact ⟨back ++ [value], List.append_assoc _ _ _⟩

theorem Tracks.admits_snoc {value : Value} (htracks : scene.Tracks code facts state)
    (hadmits : scene.Admits (code ++ [value]) code.length value) (position : Nat)
    (found : Value) (hfound : (code ++ [value])[position]? = some found) :
    scene.Admits (code ++ [value]) position found := by
  by_cases hposition : position < code.length
  · rw [List.getElem?_append_left hposition] at hfound
    exact (htracks.admits position found hfound).append
  · obtain ⟨hlt, hget⟩ := List.getElem?_eq_some_iff.mp hfound
    rw [List.length_append, List.length_singleton] at hlt
    have heq : position = code.length := by omega
    subst position
    simp only [List.getElem_concat_length] at hget
    rwa [← hget]

/-- A constant joins the arena and no block. -/
theorem Tracks.snocConst (htracks : scene.Tracks code facts state) {type : Ty} {bits : UInt16}
    (hfits : (Datum.word bits).Fits type) :
    scene.Tracks (code ++ [⟨.const bits, type, none⟩])
      (⟨⟨scene.base + code.length⟩, type, .word bits⟩ :: facts) state where
  front := htracks.front_snoc _
  admits := by
    refine htracks.admits_snoc ⟨hfits, ?_, rfl, ?_, rfl⟩
    · intro operand hoperand
      cases hoperand
    · intro index hindex
      cases hindex
  known := by
    intro fact hfact
    rcases List.mem_cons.mp hfact with rfl | hfact
    · refine Known.last hfits fun found hfound => ?_
      cases hfound
      rfl
    · exact (htracks.known fact hfact).append
  computed := by
    intro hhosts
    obtain ⟨locals, hlocals, hshows⟩ := htracks.computed hhosts.of_append
    have hplaced : placed (scene.base + code.length) [⟨.const bits, type, none⟩] = [] :=
      placed_constant rfl
    refine ⟨locals, ?_, ?_⟩
    · rw [placed_append, hplaced, List.append_nil]
      exact hlocals
    · intro fact hfact
      rcases List.mem_cons.mp hfact with rfl | hfact
      · have hlast := hhosts.last
        constructor
        · simp [Activation.type?, hlast]
        · simp [Activation.datum?, hlast]
      · exact hshows fact hfact

/-- An instruction whose operands are known joins the block. -/
theorem Tracks.snoc (htracks : scene.Tracks code facts state) (inst : Inst) (type : Ty)
    (datum : Datum) (state' : σ) (hconstant : inst.constant? = none)
    (hphi : inst.isPhi = false) (hparam : ∀ index, inst ≠ .param index)
    (hoperands : ∀ id ∈ inst.operands, ∃ fact ∈ facts, fact.id = id)
    (htyped : inst.Typed (scene.function code).type? scene.platform.Declares type)
    (hfits : datum.Fits type)
    (hcompute : ∀ locals id, (∀ fact ∈ facts, scene.Shows locals fact) →
      scene.activation.function.values[id.index]? = some ⟨inst, type, none⟩ →
      scene.activation.compute scene.environment locals id state =
        some (locals.set id datum, state')) :
    scene.Tracks (code ++ [⟨inst, type, none⟩])
      (⟨⟨scene.base + code.length⟩, type, datum⟩ :: facts) state' where
  front := htracks.front_snoc _
  admits := by
    refine htracks.admits_snoc ⟨?_, ?_, hphi, hparam, rfl⟩
    · exact htyped.mono (fun _ _ _ htype => type?_append htype)
        (fun _ _ _ _ hdeclares => hdeclares)
    · intro operand hoperand
      obtain ⟨fact, hfact, rfl⟩ := hoperands operand hoperand
      have hknown := htracks.known fact hfact
      exact hknown.inScope.imp id fun hbase => ⟨hbase, hknown.index_lt⟩
  known := by
    intro fact hfact
    rcases List.mem_cons.mp hfact with rfl | hfact
    · refine Known.last hfits fun bits hbits => ?_
      rw [hconstant] at hbits
      cases hbits
    · exact (htracks.known fact hfact).append
  computed := by
    intro hhosts
    obtain ⟨locals, hlocals, hshows⟩ := htracks.computed hhosts.of_append
    have hlast := hhosts.last
    have hplaced : placed (scene.base + code.length) [⟨inst, type, none⟩] =
        [⟨scene.base + code.length⟩] := placed_instruction hconstant
    refine ⟨locals.set ⟨scene.base + code.length⟩ datum, ?_, ?_⟩
    · rw [placed_append, hplaced, Activation.computeAll_append, hlocals]
      exact (Activation.computeAll_singleton ..).trans (hcompute locals _ hshows hlast)
    · intro fact hfact
      rcases List.mem_cons.mp hfact with rfl | hfact
      · constructor
        · simp [Activation.type?, hlast]
        · cases inst with
          | const bits => cases hconstant
          | param index => exact absurd rfl (hparam index)
          | _ => simp [Activation.datum?, hlast, Locals.set]
      · refine (hshows fact hfact).set ?_
        intro heq
        have hlt := (htracks.known fact hfact).index_lt
        rw [heq] at hlt
        exact Nat.lt_irrefl _ hlt

theorem emit_function {inst : Inst} (type : Ty) (hconstant : inst.constant? = none) :
    Builder.emit scene.block inst type (scene.function code) =
      .ok (⟨scene.base + code.length⟩, scene.function (code ++ [⟨inst, type, none⟩])) := by
  rw [Builder.emit_eq type block_lt_function hconstant, function_append, function_values_size]

theorem Tracks.emit (htracks : scene.Tracks code facts state) (inst : Inst) (type : Ty)
    (datum : Datum) (state' : σ) (hconstant : inst.constant? = none)
    (hphi : inst.isPhi = false) (hparam : ∀ index, inst ≠ .param index)
    (hoperands : ∀ id ∈ inst.operands, ∃ fact ∈ facts, fact.id = id)
    (htyped : inst.Typed (scene.function code).type? scene.platform.Declares type)
    (hfits : datum.Fits type)
    (hcompute : ∀ locals id, (∀ fact ∈ facts, scene.Shows locals fact) →
      scene.activation.function.values[id.index]? = some ⟨inst, type, none⟩ →
      scene.activation.compute scene.environment locals id state =
        some (locals.set id datum, state')) :
    ∃ id code', Builder.emit scene.block inst type (scene.function code) =
        .ok (id, scene.function code') ∧
      scene.Tracks code' (⟨id, type, datum⟩ :: facts) state' :=
  ⟨_, _, emit_function type hconstant,
    htracks.snoc inst type datum state' hconstant hphi hparam hoperands htyped hfits hcompute⟩

end Scene

end Lift6502
