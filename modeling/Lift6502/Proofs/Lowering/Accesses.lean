import Lift6502.Proofs.Lowering.Operations
import Lift6502.Proofs.Decoding

/-! Accesses to memory. On each platform the code of an access does to the host
what the machine does, and an operand of an instruction is what the machine
takes it for. -/

namespace Lift6502

open Ssa

namespace Platform.Serves

variable {σ : Type} {platform : Platform} {host : Host σ} {environment : Environment σ}

theorem load_ram (hserves : platform.Serves host environment) (hflat : platform = .flat)
    (address : Address) (state : σ) :
    environment.load Platform.ram address state =
      some ((host.read address state).1.toUInt16, (host.read address state).2) := by
  rw [hserves.load, hflat]
  rfl

theorem store_ram (hserves : platform.Serves host environment) (hflat : platform = .flat)
    (address : Address) (byte : Byte) (state : σ) :
    environment.store Platform.ram address byte.toUInt16 state =
      some (host.write address byte state) := by
  rw [hserves.store, hflat]
  simp [Platform.bind]

theorem call_hostRead (hserves : platform.Serves host environment) (hnes : platform = .nes)
    (address : Address) (state : σ) :
    environment.call Platform.hostRead [.word address] state =
      some (.word (host.read address state).1.toUInt16, (host.read address state).2) := by
  rw [hserves.call _ (.inl rfl), hnes]
  rfl

theorem call_hostWrite (hserves : platform.Serves host environment) (hnes : platform = .nes)
    (address : Address) (byte : Byte) (state : σ) :
    environment.call Platform.hostWrite [.word address, .word byte.toUInt16] state =
      some (.unit, host.write address byte state) := by
  rw [hserves.call _ (.inr rfl), hnes]
  simp [Platform.bind]

theorem read_fixedAddress (hserves : platform.Serves host environment) (address : Address)
    (state : σ) : host.read (platform.fixedAddress address) state = host.read address state := by
  cases platform with
  | flat => rfl
  | nes => exact (hserves.mirrored rfl).read address state

theorem write_fixedAddress (hserves : platform.Serves host environment) (address : Address)
    (byte : Byte) (state : σ) :
    host.write (platform.fixedAddress address) byte state = host.write address byte state := by
  cases platform with
  | flat => rfl
  | nes => exact (hserves.mirrored rfl).write address byte state

end Platform.Serves

theorem Lowering.operand_eq_load {platform : Platform} {instruction : Instruction}
    (hmemory : ∀ content, instruction.operand ≠ some (.immediate content)) :
    Lowering.operand platform instruction =
      (do Lowering.load platform (← Lowering.place platform instruction)) := by
  unfold Lowering.operand
  split
  · rename_i content hoperand
    exact absurd hoperand (hmemory content)
  · rfl

theorem Machine.value_eq_load {σ : Type} {host : Host σ} {registers : Registers}
    {operand : Option Operand} (hmemory : ∀ content, operand ≠ some (.immediate content)) :
    Machine.value host registers operand =
      (do host.load (← Machine.address host registers operand)) := by
  unfold Machine.value
  split
  · rename_i content
    exact absurd rfl (hmemory content)
  · rfl

namespace Scene

variable {σ : Type} {scene : Scene σ} {code : List Value} {facts : List Fact} {state : σ}
  {index stored : ValueId} {address : Address} {content : Byte}

/-! Loads and stores -/

theorem Tracks.loadComputed (htracks : scene.Tracks code facts state)
    (hindex : ⟨index, .i16, .word address⟩ ∈ facts) :
    ∃ id code', scene.platform.loadComputed scene.block index (scene.function code) =
        .ok (id, scene.function code') ∧
      scene.Tracks code'
        (⟨id, .i8, .word (scene.host.read address state).1.toUInt16⟩ :: facts)
        (scene.host.read address state).2 := by
  have hknown := htracks.known _ hindex
  cases hplatform : scene.platform with
  | flat =>
      exact htracks.emit (.load Platform.ram index) .i8
        (.word (scene.host.read address state).1.toUInt16) (scene.host.read address state).2
        rfl rfl (fun _ hparam => by cases hparam)
        (by
          intro id hid
          cases List.mem_singleton.mp hid
          exact ⟨_, hindex, rfl⟩)
        ⟨rfl, hknown.type?⟩ ⟨rfl, holds_byte _⟩
        (by
          intro locals id hshows hvalue
          simp [Activation.compute, hvalue, (hshows _ hindex).word?,
            scene.serves.load_ram hplatform])
  | nes =>
      exact htracks.emit (.call Platform.hostRead [index]) .i8
        (.word (scene.host.read address state).1.toUInt16) (scene.host.read address state).2
        rfl rfl (fun _ hparam => by cases hparam)
        (by
          intro id hid
          cases List.mem_singleton.mp hid
          exact ⟨_, hindex, rfl⟩)
        ⟨_, .read hplatform, by simp [hknown.type?]⟩ ⟨rfl, holds_byte _⟩
        (by
          intro locals id hshows hvalue
          simp [Activation.compute, hvalue, (hshows _ hindex).datum,
            scene.serves.call_hostRead hplatform])

theorem Tracks.storeComputed (htracks : scene.Tracks code facts state)
    (hindex : ⟨index, .i16, .word address⟩ ∈ facts)
    (hstored : ⟨stored, .i8, .word content.toUInt16⟩ ∈ facts) :
    ∃ code', scene.platform.storeComputed scene.block index stored (scene.function code) =
        .ok ((), scene.function code') ∧
      scene.Tracks code' facts (scene.host.write address content state) := by
  have hknown := htracks.known _ hindex
  have hknownStored := htracks.known _ hstored
  have hoperands : ∀ id ∈ [index, stored], ∃ fact ∈ facts, fact.id = id := by
    intro id hid
    simp only [List.mem_cons, List.not_mem_nil, or_false] at hid
    rcases hid with rfl | rfl
    · exact ⟨_, hindex, rfl⟩
    · exact ⟨_, hstored, rfl⟩
  cases hplatform : scene.platform with
  | flat =>
      obtain ⟨id, code', hemit, htracks'⟩ := htracks.emit (.store Platform.ram index stored)
        .void .unit (scene.host.write address content state) rfl rfl
        (fun _ hparam => by cases hparam) hoperands ⟨rfl, hknown.type?, hknownStored.type?⟩ rfl
        (by
          intro locals id hshows hvalue
          simp [Activation.compute, hvalue, (hshows _ hindex).word?, (hshows _ hstored).word?,
            scene.serves.store_ram hplatform])
      refine ⟨code', ?_, htracks'.weaken fun fact hfact => List.mem_cons_of_mem _ hfact⟩
      simp only [Platform.storeComputed, Builder.store, bind, StateT.bind, hemit]
      rfl
  | nes =>
      obtain ⟨id, code', hemit, htracks'⟩ := htracks.emit
        (.call Platform.hostWrite [index, stored])
        .void .unit (scene.host.write address content state) rfl rfl
        (fun _ hparam => by cases hparam) hoperands
        ⟨_, .write hplatform, by simp [hknown.type?, hknownStored.type?]⟩ rfl
        (by
          intro locals id hshows hvalue
          simp [Activation.compute, hvalue, (hshows _ hindex).datum, (hshows _ hstored).datum,
            scene.serves.call_hostWrite hplatform])
      refine ⟨code', ?_, htracks'.weaken fun fact hfact => List.mem_cons_of_mem _ hfact⟩
      simp only [Platform.storeComputed, Builder.call, bind, StateT.bind, hemit]
      rfl

theorem Tracks.loadFixed (htracks : scene.Tracks code facts state) (address : Address) :
    ∃ id code',
      scene.start.Builds scene.block (Lowering.loadFixed scene.platform address) code id code' ∧
      scene.Tracks code'
        (⟨id, .i8, .word (scene.host.read address state).1.toUInt16⟩ :: facts)
        (scene.host.read address state).2 := by
  obtain ⟨index, code₁, hword, htracks₁⟩ :=
    htracks.wordConst (scene.platform.fixedAddress address)
  obtain ⟨id, code₂, hload, htracks₂⟩ := htracks₁.loadComputed List.mem_cons_self
  rw [scene.serves.read_fixedAddress] at htracks₂
  have hfixed : scene.platform.load scene.block address (scene.function code) =
      .ok (id, scene.function code₂) := by
    simp only [Platform.load, bind, StateT.bind, hword, Except.bind, hload]
  exact ⟨id, code₂, .of_build hfixed, .keepFirst [_] htracks₂⟩

theorem Tracks.storeFixed (htracks : scene.Tracks code facts state) (address : Address)
    (hstored : ⟨stored, .i8, .word content.toUInt16⟩ ∈ facts) :
    ∃ code', scene.platform.store scene.block address stored (scene.function code) =
        .ok ((), scene.function code') ∧
      scene.Tracks code' facts (scene.host.write address content state) := by
  obtain ⟨index, code₁, hword, htracks₁⟩ :=
    htracks.wordConst (scene.platform.fixedAddress address)
  obtain ⟨code₂, hstore, htracks₂⟩ :=
    htracks₁.storeComputed List.mem_cons_self (List.mem_cons_of_mem _ hstored)
  rw [scene.serves.write_fixedAddress] at htracks₂
  refine ⟨code₂, ?_, htracks₂.weaken fun fact hfact => List.mem_cons_of_mem _ hfact⟩
  simp only [Platform.store, bind, StateT.bind, hword, Except.bind, hstore]

/-! Places -/

/-- The address at which a place is in the run. -/
def Locates (facts : List Fact) : Lowering.Place → Address → Prop
  | .fixed known, address => known = address
  | .computed id, address => ⟨id, .i16, .word address⟩ ∈ facts

theorem Locates.cons {fact : Fact} {place : Lowering.Place}
    (hlocates : Locates facts place address) : Locates (fact :: facts) place address := by
  cases place with
  | fixed known => exact hlocates
  | computed id => exact List.mem_cons_of_mem _ hlocates

theorem Tracks.load {place : Lowering.Place} (htracks : scene.Tracks code facts state)
    (hplace : Locates facts place address) :
    ∃ id code', scene.start.Builds scene.block (Lowering.load scene.platform place) code id code' ∧
      scene.Tracks code'
        (⟨id, .i8, .word (scene.host.read address state).1.toUInt16⟩ :: facts)
        (scene.host.read address state).2 := by
  cases place with
  | fixed known =>
      cases hplace
      exact htracks.loadFixed address
  | computed index =>
      obtain ⟨id, code', hload, htracks'⟩ := htracks.loadComputed hplace
      refine ⟨id, code', ?_, htracks'⟩
      unfold Lowering.load
      exact .of_build hload

theorem Tracks.store {place : Lowering.Place} (htracks : scene.Tracks code facts state)
    (hplace : Locates facts place address)
    (hstored : ⟨stored, .i8, .word content.toUInt16⟩ ∈ facts) :
    ∃ code',
      scene.start.Builds scene.block (Lowering.store scene.platform place stored) code () code' ∧
      scene.Tracks code' facts (scene.host.write address content state) := by
  cases place with
  | fixed known =>
      cases hplace
      obtain ⟨code', hstore, htracks'⟩ := htracks.storeFixed address hstored
      refine ⟨code', ?_, htracks'⟩
      unfold Lowering.store
      exact .of_build hstore
  | computed index =>
      obtain ⟨code', hstore, htracks'⟩ := htracks.storeComputed hplace hstored
      refine ⟨code', ?_, htracks'⟩
      unfold Lowering.store
      exact .of_build hstore

/-! Operands -/

/-- The facts say what the registers hold. -/
def Carried (facts : List Fact) (values : PerRegister ValueId) (registers : Registers) : Prop :=
  ∀ register : Register,
    ⟨values.get register, register.type, .word (registers.words.get register)⟩ ∈ facts

variable {values : PerRegister ValueId} {registers : Registers}

theorem Carried.mono {fewer : List Fact} (hcarried : Carried fewer values registers)
    (hsubset : ∀ fact ∈ fewer, fact ∈ facts) : Carried facts values registers :=
  fun register => hsubset _ (hcarried register)

theorem Carried.cons {fact : Fact} (hcarried : Carried facts values registers) :
    Carried (fact :: facts) values registers :=
  hcarried.mono fun _ hfact => List.mem_cons_of_mem _ hfact

theorem Carried.byte (hcarried : Carried facts values registers) (register : ByteRegister) :
    ⟨values.get (.byte register), .i8, .word (registers.byte register).toUInt16⟩ ∈ facts := by
  cases register with
  | a => exact hcarried (.byte .a)
  | x => exact hcarried (.byte .x)
  | y => exact hcarried (.byte .y)

theorem Carried.flag (hcarried : Carried facts values registers) (flag : Flag) :
    ⟨values.get (.flag flag), .i1, .word (registers.flag flag).toUInt16⟩ ∈ facts := by
  cases flag with
  | n => exact hcarried (.flag .n)
  | v => exact hcarried (.flag .v)
  | z => exact hcarried (.flag .z)
  | c => exact hcarried (.flag .c)

theorem Tracks.indexed (htracks : scene.Tracks code facts state)
    (hcarried : Carried facts values registers) (base : Address) (register : ByteRegister) :
    ∃ id code', Lowering.indexed base register (scene.frame code values) =
        .ok (id, scene.frame code' values) ∧
      scene.Tracks code'
        (⟨id, .i16, .word (base + (registers.byte register).toUInt16)⟩ :: facts) state := by
  obtain ⟨index, code₁, hindex, hknows₁⟩ :=
    Knowledge.zext htracks.knows (hcarried.byte register) (by decide)
  obtain ⟨start, code₂, hstart, hknows₂⟩ := Knowledge.word hknows₁ base
  obtain ⟨sum, code₃, hsum, hknows₃⟩ := Knowledge.binary hknows₂ .add List.mem_cons_self
    (List.mem_cons_of_mem _ List.mem_cons_self)
  rw [eval_add_word] at hknows₃
  refine ⟨sum, code₃, ?_, .keepFirst [_, _] hknows₃⟩
  unfold Lowering.indexed
  rw [StateT.bind_of_ok (Knowledge.getByte_frame register), StateT.bind_of_ok (hindex values),
    StateT.bind_of_ok (hstart values)]
  exact hsum values

theorem Tracks.indirectIndexed (htracks : scene.Tracks code facts state)
    (hcarried : Carried facts values registers) (pointer : Byte) :
    ∃ id code', ∃ address state',
      Lowering.indirectIndexed scene.platform pointer (scene.frame code values) =
        .ok (id, scene.frame code' values) ∧
      Machine.address scene.host registers (some (.indirectY pointer)) state =
        some (address, state') ∧
      scene.Tracks code' (⟨id, .i16, .word address⟩ :: facts) state' := by
  obtain ⟨low, code₁, hlow, htracks₁⟩ := htracks.loadFixed pointer.toUInt16
  obtain ⟨high, code₂, hhigh, htracks₂⟩ := htracks₁.loadFixed (pointer + 1).toUInt16
  obtain ⟨wideLow, code₃, hwideLow, hknows₃⟩ := Knowledge.zext htracks₂.knows
    (List.mem_cons_of_mem _ List.mem_cons_self) (by decide)
  obtain ⟨wideHigh, code₄, hwideHigh, hknows₄⟩ := Knowledge.zext hknows₃
    (List.mem_cons_of_mem _ List.mem_cons_self) (by decide)
  obtain ⟨eight, code₅, height, hknows₅⟩ := Knowledge.word hknows₄ 8
  obtain ⟨shifted, code₆, hshifted, hknows₆⟩ := Knowledge.binary hknows₅ .shl
    (List.mem_cons_of_mem _ List.mem_cons_self) List.mem_cons_self
  obtain ⟨joined, code₇, hjoined, hknows₇⟩ := Knowledge.binary hknows₆ .or List.mem_cons_self
    (List.mem_cons_of_mem _ (List.mem_cons_of_mem _ (List.mem_cons_of_mem _ List.mem_cons_self)))
  obtain ⟨index, code₈, hindex, hknows₈⟩ := Knowledge.zext hknows₇
    (List.mem_append_right [_, _, _, _, _, _, _] (hcarried.byte .y)) (by decide)
  obtain ⟨sum, code₉, hsum, hknows₉⟩ := Knowledge.binary hknows₈ .add
    (List.mem_cons_of_mem _ List.mem_cons_self) List.mem_cons_self
  rw [pointer_word] at hknows₉
  refine ⟨sum, code₉, _, _, ?_, rfl, .keepFirst [_, _, _, _, _, _, _, _] hknows₉⟩
  unfold Lowering.indirectIndexed
  rw [StateT.bind_of_ok (hlow values), StateT.bind_of_ok (hhigh values),
    StateT.bind_of_ok (hwideLow values), StateT.bind_of_ok (hwideHigh values),
    StateT.bind_of_ok (height values), StateT.bind_of_ok (hshifted values),
    StateT.bind_of_ok (hjoined values), StateT.bind_of_ok (Knowledge.getByte_frame .y),
    StateT.bind_of_ok (hindex values)]
  exact hsum values

/-- The place of a memory operand is where the machine finds it. -/
theorem Tracks.place (htracks : scene.Tracks code facts state)
    (hcarried : Carried facts values registers) {instruction : Instruction}
    (himplied : instruction.mode ≠ .implied) (hrelative : instruction.mode ≠ .relative)
    (himmediate : instruction.mode ≠ .immediate) :
    ∃ place code', ∃ address state' facts',
      Lowering.place scene.platform instruction (scene.frame code values) =
        .ok (place, scene.frame code' values) ∧
      Machine.address scene.host registers instruction.operand state = some (address, state') ∧
      Locates facts' place address ∧ (∀ fact ∈ facts, fact ∈ facts') ∧
      scene.Tracks code' facts' state' := by
  have hcons (fact : Fact) : ∀ kept ∈ facts, kept ∈ fact :: facts :=
    fun _ hkept => List.mem_cons_of_mem _ hkept
  unfold Instruction.mode at himplied hrelative himmediate
  unfold Lowering.place
  cases hoperand : instruction.operand with
  | none =>
      rw [hoperand] at himplied
      exact absurd rfl himplied
  | some operand =>
      rw [hoperand] at hrelative himmediate
      cases operand with
      | relative offset => exact absurd rfl hrelative
      | immediate value => exact absurd rfl himmediate
      | absolute address =>
          exact ⟨.fixed address, code, address, state, facts, rfl, rfl, rfl, fun _ => id,
            htracks⟩
      | zeroPage address =>
          exact ⟨.fixed address.toUInt16, code, address.toUInt16, state, facts, rfl, rfl, rfl,
            fun _ => id, htracks⟩
      | absoluteX base =>
          obtain ⟨id, code', hindexed, htracks'⟩ := htracks.indexed hcarried base .x
          refine ⟨.computed id, code', _, _, _, ?_, rfl, List.mem_cons_self, hcons _, htracks'⟩
          exact StateT.bind_of_ok hindexed
      | absoluteY base =>
          obtain ⟨id, code', hindexed, htracks'⟩ := htracks.indexed hcarried base .y
          refine ⟨.computed id, code', _, _, _, ?_, rfl, List.mem_cons_self, hcons _, htracks'⟩
          exact StateT.bind_of_ok hindexed
      | indirectY pointer =>
          obtain ⟨id, code', address, state', hindexed, haddress, htracks'⟩ :=
            htracks.indirectIndexed hcarried pointer
          refine ⟨.computed id, code', address, state', _, ?_, haddress, List.mem_cons_self,
            hcons _, htracks'⟩
          exact StateT.bind_of_ok hindexed

theorem Tracks.operand (htracks : scene.Tracks code facts state)
    (hcarried : Carried facts values registers) {instruction : Instruction}
    (himplied : instruction.mode ≠ .implied) (hrelative : instruction.mode ≠ .relative) :
    ∃ id code', ∃ content state',
      Lowering.operand scene.platform instruction (scene.frame code values) =
        .ok (id, scene.frame code' values) ∧
      Machine.value scene.host registers instruction.operand state = some (content, state') ∧
      scene.Tracks code' (⟨id, .i8, .word content.toUInt16⟩ :: facts) state' := by
  by_cases himmediate : instruction.mode = .immediate
  · have hoperand : ∃ content, instruction.operand = some (.immediate content) := by
      unfold Instruction.mode at himmediate
      cases hoperand : instruction.operand with
      | none =>
          rw [hoperand] at himmediate
          cases himmediate
      | some operand =>
          rw [hoperand] at himmediate
          cases operand with
          | immediate content => exact ⟨content, rfl⟩
          | _ => cases himmediate
    obtain ⟨content, hoperand⟩ := hoperand
    obtain ⟨id, code', hbyte, hknows'⟩ := Knowledge.byte htracks.knows content
    refine ⟨id, code', content, state, ?_, ?_, hknows'⟩
    · unfold Lowering.operand
      rw [hoperand]
      exact hbyte values
    · rw [hoperand]
      rfl
  · obtain ⟨place, code₁, address, state₁, facts₁, hplace, haddress, hlocates, hsubset, htracks₁⟩ :=
      htracks.place hcarried himplied hrelative himmediate
    obtain ⟨id, code₂, hload, htracks₂⟩ := htracks₁.load hlocates
    have hmemory : ∀ content, instruction.operand ≠ some (.immediate content) := by
      intro content hoperand
      unfold Instruction.mode at himmediate
      rw [hoperand] at himmediate
      exact himmediate rfl
    refine ⟨id, code₂, (scene.host.read address state₁).1, (scene.host.read address state₁).2,
      ?_, ?_, htracks₂.weaken ?_⟩
    · rw [Lowering.operand_eq_load hmemory, StateT.bind_of_ok hplace]
      exact hload values
    · rw [Machine.value_eq_load hmemory]
      show StateT.bind _ _ _ = _
      unfold StateT.bind
      rw [haddress]
      rfl
    · intro fact hfact
      rcases List.mem_cons.mp hfact with rfl | hfact
      · exact List.mem_cons_self
      · exact List.mem_cons_of_mem _ (hsubset fact hfact)

end Scene

end Lift6502
