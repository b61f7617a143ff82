import Lift6502.Register

/-! The supported mnemonics of the 6502 and what each does. -/

namespace Lift6502

/-- Supported mnemonics, in alphabetical order. -/
inductive Mnemonic
  | adc
  | and
  | bcc
  | bcs
  | beq
  | bit
  | bmi
  | bne
  | bpl
  | bvc
  | bvs
  | clc
  | cld
  | cli
  | clv
  | cmp
  | cpx
  | cpy
  | dec
  | dex
  | dey
  | eor
  | inc
  | inx
  | iny
  | jmp
  | jsr
  | lda
  | ldx
  | ldy
  | nop
  | ora
  | rts
  | sbc
  | sec
  | sed
  | sei
  | sta
  | stx
  | sty
  | tax
  | tay
  | txa
  | txs
  | tya
  deriving DecidableEq, Repr

inductive LogicOp
  | or
  | and
  | xor
  deriving DecidableEq, Repr

/-- The effect of an instruction on registers, memory and control. -/
inductive Operation
  | load (register : ByteRegister)
  | store (register : ByteRegister)
  | compare (register : ByteRegister)
  | increment (register : ByteRegister)
  | decrement (register : ByteRegister)
  | incrementMemory
  | decrementMemory
  | logic (op : LogicOp)
  | bitTest
  | addWithCarry
  | subtractWithCarry
  | transfer (source target : ByteRegister)
  | setFlag (flag : Flag) (value : Bool)
  /-- Taken when the flag is set, or when it is clear if `inverse`. -/
  | branch (flag : Flag) (inverse : Bool)
  | jump
  | call
  | ret
  /-- No effect on the registers carried here. -/
  | idle
  deriving DecidableEq, Repr

namespace Mnemonic

def all : List Mnemonic :=
  [.adc, .and, .bcc, .bcs, .beq, .bit, .bmi, .bne, .bpl, .bvc, .bvs, .clc, .cld, .cli, .clv,
    .cmp, .cpx, .cpy, .dec, .dex, .dey, .eor, .inc, .inx, .iny, .jmp, .jsr, .lda, .ldx, .ldy,
    .nop, .ora, .rts, .sbc, .sec, .sed, .sei, .sta, .stx, .sty, .tax, .tay, .txa, .txs, .tya]

theorem mem_all (mnemonic : Mnemonic) : mnemonic ∈ all := by
  cases mnemonic <;> decide

def text : Mnemonic → String
  | .adc => "ADC"
  | .and => "AND"
  | .bcc => "BCC"
  | .bcs => "BCS"
  | .beq => "BEQ"
  | .bit => "BIT"
  | .bmi => "BMI"
  | .bne => "BNE"
  | .bpl => "BPL"
  | .bvc => "BVC"
  | .bvs => "BVS"
  | .clc => "CLC"
  | .cld => "CLD"
  | .cli => "CLI"
  | .clv => "CLV"
  | .cmp => "CMP"
  | .cpx => "CPX"
  | .cpy => "CPY"
  | .dec => "DEC"
  | .dex => "DEX"
  | .dey => "DEY"
  | .eor => "EOR"
  | .inc => "INC"
  | .inx => "INX"
  | .iny => "INY"
  | .jmp => "JMP"
  | .jsr => "JSR"
  | .lda => "LDA"
  | .ldx => "LDX"
  | .ldy => "LDY"
  | .nop => "NOP"
  | .ora => "ORA"
  | .rts => "RTS"
  | .sbc => "SBC"
  | .sec => "SEC"
  | .sed => "SED"
  | .sei => "SEI"
  | .sta => "STA"
  | .stx => "STX"
  | .sty => "STY"
  | .tax => "TAX"
  | .tay => "TAY"
  | .txa => "TXA"
  | .txs => "TXS"
  | .tya => "TYA"

/-- The interrupt mask, decimal mode and the stack pointer are not carried, so
the mnemonics that set them are idle. -/
def operation : Mnemonic → Operation
  | .lda => .load .a
  | .ldx => .load .x
  | .ldy => .load .y
  | .sta => .store .a
  | .stx => .store .x
  | .sty => .store .y
  | .cmp => .compare .a
  | .cpx => .compare .x
  | .cpy => .compare .y
  | .inx => .increment .x
  | .iny => .increment .y
  | .dex => .decrement .x
  | .dey => .decrement .y
  | .inc => .incrementMemory
  | .dec => .decrementMemory
  | .ora => .logic .or
  | .and => .logic .and
  | .eor => .logic .xor
  | .bit => .bitTest
  | .adc => .addWithCarry
  | .sbc => .subtractWithCarry
  | .tax => .transfer .a .x
  | .tay => .transfer .a .y
  | .txa => .transfer .x .a
  | .tya => .transfer .y .a
  | .clc => .setFlag .c false
  | .sec => .setFlag .c true
  | .clv => .setFlag .v false
  | .bpl => .branch .n true
  | .bmi => .branch .n false
  | .bvc => .branch .v true
  | .bvs => .branch .v false
  | .bcc => .branch .c true
  | .bcs => .branch .c false
  | .bne => .branch .z true
  | .beq => .branch .z false
  | .jmp => .jump
  | .jsr => .call
  | .rts => .ret
  | .sei | .cli | .cld | .sed | .txs | .nop => .idle

end Mnemonic

end Lift6502
