import Mathlib
import MetaVm.Sbf.Columns

namespace MetaVm.Sbf

abbrev Word : Type := BitVec 64

/-! The rows of the trace and the columns that a row fills. -/

structure SbfTraceRow where
  pc : Word := 0
  opcode : Code := 0
  dstReg : Code := 0
  dstValBefore : Word := 0
  dstValAfter : Word := 0
  srcReg : Code := 0
  srcVal : Word := 0
  memAddr : Word := 0
  memVal : Word := 0
  memSize : Code := 0
  nextPc : Word := 0
  insnType : Code := 0
  funct : Code := 0
  immediate : Word := 0
  aux0 : Word := 0
  aux1 : Word := 0
  aux2 : Word := 0
deriving DecidableEq, Repr

/-- NEG shares a selector with the codes that name no operation. -/
def aluSelector (funct : Code) : Column :=
  if funct = functAdd then colSelAluAdd
  else if funct = functSub then colSelAluSub
  else if funct = functMov then colSelAluMov
  else if funct = functMul then colSelAluMul
  else if funct = functDiv then colSelAluDiv
  else if funct = functMod then colSelAluMod
  else if funct = functAnd then colSelAluAnd
  else if funct = functOr then colSelAluOr
  else if funct = functXor then colSelAluXor
  else if funct = functLsh then colSelAluLsh
  else if funct = functRsh then colSelAluRsh
  else if funct = functArsh then colSelAluArsh
  else colSelAluOther

/-- JA, JGT, JLE, JSGT, JSLE and JSET share a selector. -/
def branchSelector (funct : Code) : Column :=
  if funct = functJeq then colSelBranchEq
  else if funct = functJne then colSelBranchNeq
  else if funct = functJlt ∨ funct = functJslt then colSelBranchLt
  else if funct = functJge ∨ funct = functJsge then colSelBranchGe
  else colSelBranchOther

def selectorColumn (insnType funct : Code) : Column :=
  if insnType = insnAlu64 ∨ insnType = insnAlu32 then aluSelector funct
  else if insnType = insnLoad then colSelLoad
  else if insnType = insnStore then colSelStore
  else if insnType = insnBranch then branchSelector funct
  else if insnType = insnCall then colSelCall
  else colSelExit

namespace SbfTraceRow

def selector (row : SbfTraceRow) : Column :=
  selectorColumn row.insnType row.funct

/-- What `push_row` appends to the columns. -/
def pushRow (row : SbfTraceRow) : Row Word :=
  Fin.append ![row.pc, row.opcode.setWidth 64, row.dstReg.setWidth 64,
    row.dstValBefore, row.dstValAfter, row.srcReg.setWidth 64, row.srcVal,
    row.memAddr, row.memVal, row.memSize.setWidth 64, row.nextPc,
    row.insnType.setWidth 64, row.funct.setWidth 64, row.immediate, row.aux0,
    row.aux1, row.aux2]
    fun index : Fin 22 => if Fin.natAdd 17 index = row.selector then 1 else 0

theorem pushRow_selector (row : SbfTraceRow) {column : Column}
    (listed : column ∈ selectorColumnIndices) :
    row.pushRow column = if column = row.selector then 1 else 0 := by
  rw [selectorColumnIndices_eq] at listed
  obtain ⟨index, rfl⟩ := List.mem_ofFn.1 listed
  rw [pushRow, Fin.append_right]

end SbfTraceRow

theorem selectorColumn_listed (insnType funct : Code) :
    selectorColumn insnType funct ∈ selectorColumnIndices := by
  have alu : ∀ code, aluSelector code ∈ selectorColumnIndices := by
    decide
  have branch : ∀ code, branchSelector code ∈ selectorColumnIndices := by
    decide
  unfold selectorColumn
  split
  · exact alu funct
  split
  · decide
  split
  · decide
  split
  · exact branch funct
  split <;> decide

end MetaVm.Sbf
