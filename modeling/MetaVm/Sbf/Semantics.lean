import MetaVm.Sbf.Trace

namespace MetaVm.Sbf

/-! The instructions of the machine: results of the arithmetic operations and
conditions of the jumps. -/

inductive AluOp
  | add
  | sub
  | mul
  | div
  | or
  | and
  | lsh
  | rsh
  | neg
  | mod
  | xor
  | mov
  | arsh
deriving DecidableEq, Repr

namespace AluOp

/-- The result at a width. Shift amounts wrap around at the width, and a
division by zero has no result. -/
def eval {width : ℕ} (op : AluOp) (dst src : BitVec width) : Option (BitVec width) :=
  match op with
  | add => some (dst + src)
  | sub => some (dst - src)
  | mul => some (dst * src)
  | div => if src = 0 then none else some (dst / src)
  | or => some (dst ||| src)
  | and => some (dst &&& src)
  | lsh => some (dst <<< (src.toNat % width))
  | rsh => some (dst >>> (src.toNat % width))
  | neg => some (-dst)
  | mod => if src = 0 then none else some (dst % src)
  | xor => some (dst ^^^ src)
  | mov => some src
  | arsh => some (dst.sshiftRight (src.toNat % width))

def funct : AluOp → Code
  | add => functAdd
  | sub => functSub
  | mul => functMul
  | div => functDiv
  | or => functOr
  | and => functAnd
  | lsh => functLsh
  | rsh => functRsh
  | neg => functNeg
  | mod => functMod
  | xor => functXor
  | mov => functMov
  | arsh => functArsh

def selector (op : AluOp) : Column := aluSelector op.funct

theorem selector_listed (op : AluOp) : op.selector ∈ selectorColumnIndices := by
  cases op <;> decide

end AluOp

inductive BranchOp
  | ja
  | jeq
  | jgt
  | jge
  | jset
  | jne
  | jsgt
  | jsge
  | jlt
  | jle
  | jslt
  | jsle
deriving DecidableEq, Repr

namespace BranchOp

/-- Whether the jump is taken. -/
def taken (op : BranchOp) (dst src : Word) : Bool :=
  match op with
  | ja => true
  | jeq => dst = src
  | jgt => src < dst
  | jge => src ≤ dst
  | jset => dst &&& src ≠ 0
  | jne => dst ≠ src
  | jsgt => src.slt dst
  | jsge => src.sle dst
  | jlt => dst < src
  | jle => dst ≤ src
  | jslt => dst.slt src
  | jsle => dst.sle src

def funct : BranchOp → Code
  | ja => functJa
  | jeq => functJeq
  | jgt => functJgt
  | jge => functJge
  | jset => functJset
  | jne => functJne
  | jsgt => functJsgt
  | jsge => functJsge
  | jlt => functJlt
  | jle => functJle
  | jslt => functJslt
  | jsle => functJsle

def selector (op : BranchOp) : Column := branchSelector op.funct

end BranchOp

end MetaVm.Sbf
