import MetaVm.Lib.Numerals

namespace MetaVm.Sbf

/-! The trace columns of the BPF machine, without the step column, and the codes
that name an instruction. -/

abbrev Column : Type := Fin 39

instance neZero_columns : NeZero 39 := ⟨by decide⟩

/-- The evaluations of all columns at one point, or on one row. -/
abbrev Row (F : Type) : Type := Column → F

abbrev colPc : Column := 0
abbrev colOpcode : Column := 1
abbrev colDstReg : Column := 2
abbrev colDstValBefore : Column := 3
abbrev colDstValAfter : Column := 4
abbrev colSrcReg : Column := 5
abbrev colSrcVal : Column := 6
abbrev colMemAddr : Column := 7
abbrev colMemVal : Column := 8
abbrev colMemSize : Column := 9
abbrev colNextPc : Column := 10
abbrev colInsnType : Column := 11
abbrev colFunct : Column := 12
abbrev colImmediate : Column := 13
abbrev colAux0 : Column := 14
abbrev colAux1 : Column := 15
abbrev colAux2 : Column := 16

/-! One-hot selectors of the instruction class. -/

abbrev colSelAluAdd : Column := 17
abbrev colSelAluSub : Column := 18
abbrev colSelAluMov : Column := 19
abbrev colSelAluMul : Column := 20
abbrev colSelAluDiv : Column := 21
abbrev colSelAluMod : Column := 22
abbrev colSelAluAnd : Column := 23
abbrev colSelAluOr : Column := 24
abbrev colSelAluXor : Column := 25
abbrev colSelAluLsh : Column := 26
abbrev colSelAluRsh : Column := 27
abbrev colSelAluArsh : Column := 28
abbrev colSelAluOther : Column := 29
abbrev colSelLoad : Column := 30
abbrev colSelStore : Column := 31
abbrev colSelBranchEq : Column := 32
abbrev colSelBranchNeq : Column := 33
abbrev colSelBranchLt : Column := 34
abbrev colSelBranchGe : Column := 35
abbrev colSelBranchOther : Column := 36
abbrev colSelCall : Column := 37
abbrev colSelExit : Column := 38

def selectorColumnIndices : List Column :=
  [colSelAluAdd, colSelAluSub, colSelAluMov, colSelAluMul, colSelAluDiv,
    colSelAluMod, colSelAluAnd, colSelAluOr, colSelAluXor, colSelAluLsh,
    colSelAluRsh, colSelAluArsh, colSelAluOther, colSelLoad, colSelStore,
    colSelBranchEq, colSelBranchNeq, colSelBranchLt, colSelBranchGe,
    colSelBranchOther, colSelCall, colSelExit]

theorem selectorColumnIndices_eq :
    selectorColumnIndices = List.ofFn fun index : Fin 22 => Fin.natAdd 17 index := by
  decide

theorem selectorColumnIndices_nodup : selectorColumnIndices.Nodup := by
  decide

/-! Instruction types, and function codes that overlap between the types. -/

abbrev Code : Type := BitVec 8

abbrev insnAlu64 : Code := 0
abbrev insnAlu32 : Code := 1
abbrev insnLoad : Code := 2
abbrev insnStore : Code := 3
abbrev insnBranch : Code := 4
abbrev insnCall : Code := 5
abbrev insnExit : Code := 6

abbrev functAdd : Code := 0
abbrev functSub : Code := 1
abbrev functMul : Code := 2
abbrev functDiv : Code := 3
abbrev functMod : Code := 4
abbrev functOr : Code := 5
abbrev functAnd : Code := 6
abbrev functXor : Code := 7
abbrev functLsh : Code := 8
abbrev functRsh : Code := 9
abbrev functArsh : Code := 10
abbrev functNeg : Code := 11
abbrev functMov : Code := 12

abbrev functJa : Code := 0
abbrev functJeq : Code := 1
abbrev functJne : Code := 2
abbrev functJlt : Code := 3
abbrev functJle : Code := 4
abbrev functJgt : Code := 5
abbrev functJge : Code := 6
abbrev functJslt : Code := 7
abbrev functJsle : Code := 8
abbrev functJsgt : Code := 9
abbrev functJsge : Code := 10
abbrev functJset : Code := 11

abbrev functLddw : Code := 0
abbrev functLdxb : Code := 1
abbrev functLdxh : Code := 2
abbrev functLdxw : Code := 3
abbrev functLdxdw : Code := 4

abbrev functStb : Code := 0
abbrev functSth : Code := 1
abbrev functStw : Code := 2
abbrev functStdw : Code := 3
abbrev functStxb : Code := 4
abbrev functStxh : Code := 5
abbrev functStxw : Code := 6
abbrev functStxdw : Code := 7

end MetaVm.Sbf
