import Lift6502.Instruction.Mnemonic
import Lift6502.Instruction.Operand

/-! The opcode table. -/

namespace Lift6502

structure Encoding where
  opcode : Byte
  mnemonic : Mnemonic
  mode : Mode
  deriving DecidableEq, Repr

namespace Encoding

/-- The supported opcodes, in ascending order. -/
def all : List Encoding := [
  ⟨0x05, .ora, .zeroPage⟩, ⟨0x09, .ora, .immediate⟩, ⟨0x0D, .ora, .absolute⟩,
  ⟨0x10, .bpl, .relative⟩, ⟨0x11, .ora, .indirectY⟩, ⟨0x18, .clc, .implied⟩,
  ⟨0x19, .ora, .absoluteY⟩, ⟨0x1D, .ora, .absoluteX⟩, ⟨0x20, .jsr, .absolute⟩,
  ⟨0x24, .bit, .zeroPage⟩, ⟨0x25, .and, .zeroPage⟩, ⟨0x29, .and, .immediate⟩,
  ⟨0x2C, .bit, .absolute⟩, ⟨0x2D, .and, .absolute⟩, ⟨0x30, .bmi, .relative⟩,
  ⟨0x31, .and, .indirectY⟩, ⟨0x38, .sec, .implied⟩, ⟨0x39, .and, .absoluteY⟩,
  ⟨0x3D, .and, .absoluteX⟩, ⟨0x45, .eor, .zeroPage⟩, ⟨0x49, .eor, .immediate⟩,
  ⟨0x4C, .jmp, .absolute⟩, ⟨0x4D, .eor, .absolute⟩, ⟨0x50, .bvc, .relative⟩,
  ⟨0x51, .eor, .indirectY⟩, ⟨0x58, .cli, .implied⟩, ⟨0x59, .eor, .absoluteY⟩,
  ⟨0x5D, .eor, .absoluteX⟩, ⟨0x60, .rts, .implied⟩, ⟨0x65, .adc, .zeroPage⟩,
  ⟨0x69, .adc, .immediate⟩, ⟨0x6D, .adc, .absolute⟩, ⟨0x70, .bvs, .relative⟩,
  ⟨0x71, .adc, .indirectY⟩, ⟨0x78, .sei, .implied⟩, ⟨0x79, .adc, .absoluteY⟩,
  ⟨0x7D, .adc, .absoluteX⟩, ⟨0x84, .sty, .zeroPage⟩, ⟨0x85, .sta, .zeroPage⟩,
  ⟨0x86, .stx, .zeroPage⟩, ⟨0x88, .dey, .implied⟩, ⟨0x8A, .txa, .implied⟩,
  ⟨0x8C, .sty, .absolute⟩, ⟨0x8D, .sta, .absolute⟩, ⟨0x8E, .stx, .absolute⟩,
  ⟨0x90, .bcc, .relative⟩, ⟨0x91, .sta, .indirectY⟩, ⟨0x98, .tya, .implied⟩,
  ⟨0x99, .sta, .absoluteY⟩, ⟨0x9A, .txs, .implied⟩, ⟨0x9D, .sta, .absoluteX⟩,
  ⟨0xA0, .ldy, .immediate⟩, ⟨0xA2, .ldx, .immediate⟩, ⟨0xA4, .ldy, .zeroPage⟩,
  ⟨0xA5, .lda, .zeroPage⟩, ⟨0xA6, .ldx, .zeroPage⟩, ⟨0xA8, .tay, .implied⟩,
  ⟨0xA9, .lda, .immediate⟩, ⟨0xAA, .tax, .implied⟩, ⟨0xAC, .ldy, .absolute⟩,
  ⟨0xAD, .lda, .absolute⟩, ⟨0xAE, .ldx, .absolute⟩, ⟨0xB0, .bcs, .relative⟩,
  ⟨0xB1, .lda, .indirectY⟩, ⟨0xB8, .clv, .implied⟩, ⟨0xB9, .lda, .absoluteY⟩,
  ⟨0xBC, .ldy, .absoluteX⟩, ⟨0xBD, .lda, .absoluteX⟩, ⟨0xBE, .ldx, .absoluteY⟩,
  ⟨0xC0, .cpy, .immediate⟩, ⟨0xC4, .cpy, .zeroPage⟩, ⟨0xC5, .cmp, .zeroPage⟩,
  ⟨0xC6, .dec, .zeroPage⟩, ⟨0xC8, .iny, .implied⟩, ⟨0xC9, .cmp, .immediate⟩,
  ⟨0xCA, .dex, .implied⟩, ⟨0xCC, .cpy, .absolute⟩, ⟨0xCD, .cmp, .absolute⟩,
  ⟨0xCE, .dec, .absolute⟩, ⟨0xD0, .bne, .relative⟩, ⟨0xD1, .cmp, .indirectY⟩,
  ⟨0xD8, .cld, .implied⟩, ⟨0xD9, .cmp, .absoluteY⟩, ⟨0xDD, .cmp, .absoluteX⟩,
  ⟨0xDE, .dec, .absoluteX⟩, ⟨0xE0, .cpx, .immediate⟩, ⟨0xE4, .cpx, .zeroPage⟩,
  ⟨0xE5, .sbc, .zeroPage⟩, ⟨0xE6, .inc, .zeroPage⟩, ⟨0xE8, .inx, .implied⟩,
  ⟨0xE9, .sbc, .immediate⟩, ⟨0xEA, .nop, .implied⟩, ⟨0xEC, .cpx, .absolute⟩,
  ⟨0xED, .sbc, .absolute⟩, ⟨0xEE, .inc, .absolute⟩, ⟨0xF0, .beq, .relative⟩,
  ⟨0xF1, .sbc, .indirectY⟩, ⟨0xF8, .sed, .implied⟩, ⟨0xF9, .sbc, .absoluteY⟩,
  ⟨0xFD, .sbc, .absoluteX⟩, ⟨0xFE, .inc, .absoluteX⟩]

def ofOpcode? (opcode : Byte) : Option Encoding :=
  all.find? fun encoding => encoding.opcode == opcode

end Encoding

end Lift6502
