import Mathlib
import MetaVm.Zkp.Permutation

namespace MetaVm.Riscv.Constraints

/-! The trace columns the constraints read, in the order of the exported
trace without its step column. -/

abbrev Column : Type := Fin 83

instance neZero_columns : NeZero 83 := ⟨by decide⟩

/-- The evaluations of all columns at one point, or on one row. -/
abbrev Row (F : Type) : Type := Column → F

abbrev colPc : Column := 0
abbrev colRd : Column := 1
abbrev colRdValBefore : Column := 2
abbrev colRdValAfter : Column := 3
abbrev colRs1 : Column := 4
abbrev colRs1Val : Column := 5
abbrev colRs2 : Column := 6
abbrev colRs2Val : Column := 7
abbrev colMemAddr : Column := 8
abbrev colMemVal : Column := 9
abbrev colNextPc : Column := 10
abbrev colPrivilegeMode : Column := 11
abbrev colInsnType : Column := 12
abbrev colFunct : Column := 13
abbrev colImmediate : Column := 14
abbrev colInsnLen : Column := 15
abbrev colAux0 : Column := 16
abbrev colAux1 : Column := 17
abbrev colAux2 : Column := 18

/-! One-hot selectors of the instruction class. -/

abbrev colSelRAluAdd : Column := 19
abbrev colSelRAluSub : Column := 20
abbrev colSelRAnd : Column := 21
abbrev colSelROr : Column := 22
abbrev colSelRXor : Column := 23
abbrev colSelRSll : Column := 24
abbrev colSelRSrl : Column := 25
abbrev colSelRSra : Column := 26
abbrev colSelRCompare : Column := 27
abbrev colSelIAluAdd : Column := 28
abbrev colSelIAnd : Column := 29
abbrev colSelIOr : Column := 30
abbrev colSelIXor : Column := 31
abbrev colSelISll : Column := 32
abbrev colSelISrl : Column := 33
abbrev colSelISra : Column := 34
abbrev colSelICompare : Column := 35
abbrev colSelWAluAdd : Column := 36
abbrev colSelWAluSub : Column := 37
abbrev colSelWAluAddi : Column := 38
abbrev colSelWSll : Column := 39
abbrev colSelWSrl : Column := 40
abbrev colSelWSra : Column := 41
abbrev colSelWAluOther : Column := 42
abbrev colSelMul : Column := 43
abbrev colSelDiv : Column := 44
abbrev colSelRem : Column := 45
abbrev colSelMuldivOther : Column := 46
abbrev colSelLoad : Column := 47
abbrev colSelStore : Column := 48
abbrev colSelBeq : Column := 49
abbrev colSelBne : Column := 50
abbrev colSelBltu : Column := 51
abbrev colSelBgeu : Column := 52
abbrev colSelBlt : Column := 53
abbrev colSelBge : Column := 54
abbrev colSelJal : Column := 55
abbrev colSelJalr : Column := 56
abbrev colSelLui : Column := 57
abbrev colSelAuipc : Column := 58
abbrev colSelCsrrw : Column := 59
abbrev colSelCsrrs : Column := 60
abbrev colSelCsrrc : Column := 61
abbrev colSelSystem : Column := 62
abbrev colSelLr : Column := 63
abbrev colSelSc : Column := 64
abbrev colSelAmoSwap : Column := 65
abbrev colSelAmoAdd : Column := 66
abbrev colSelAmoBitwise : Column := 67
abbrev colSelAmoCompare : Column := 68
abbrev colSelAtomicOther : Column := 69
abbrev colSelMulhu : Column := 70
abbrev colSelCsrrwI : Column := 71
abbrev colSelCsrrsI : Column := 72
abbrev colSelMulh : Column := 73
abbrev colSelMulhsu : Column := 74
abbrev colSelMulw : Column := 75
abbrev colSelDivw : Column := 76
abbrev colSelRemw : Column := 77
abbrev colSelAmoOr : Column := 78
abbrev colSelAmoXor : Column := 79
abbrev colSelAmoMaxu : Column := 80
abbrev colSelAmoMins : Column := 81
abbrev colSelAmoMaxs : Column := 82

def selectorColumnIndices : List Column :=
  [colSelRAluAdd, colSelRAluSub, colSelRAnd, colSelROr, colSelRXor, colSelRSll,
    colSelRSrl, colSelRSra, colSelRCompare, colSelIAluAdd, colSelIAnd,
    colSelIOr, colSelIXor, colSelISll, colSelISrl, colSelISra, colSelICompare,
    colSelWAluAdd, colSelWAluSub, colSelWAluAddi, colSelWSll, colSelWSrl,
    colSelWSra, colSelWAluOther, colSelMul, colSelDiv, colSelRem,
    colSelMuldivOther, colSelLoad, colSelStore, colSelBeq, colSelBne,
    colSelBltu, colSelBgeu, colSelBlt, colSelBge, colSelJal, colSelJalr,
    colSelLui, colSelAuipc, colSelCsrrw, colSelCsrrs, colSelCsrrc,
    colSelSystem, colSelLr, colSelSc, colSelAmoSwap, colSelAmoAdd,
    colSelAmoBitwise, colSelAmoCompare, colSelAtomicOther, colSelMulhu,
    colSelCsrrwI, colSelCsrrsI, colSelMulh, colSelMulhsu, colSelMulw,
    colSelDivw, colSelRemw, colSelAmoOr, colSelAmoXor, colSelAmoMaxu,
    colSelAmoMins, colSelAmoMaxs]

theorem selectorColumnIndices_eq :
    selectorColumnIndices = List.ofFn fun index : Fin 64 => Fin.natAdd 19 index := by
  decide

end MetaVm.Riscv.Constraints

namespace MetaVm.Riscv.Constraints

open Zkp

/-! The columns that the permutation arguments read. -/

def memoryColumns : MemoryColumns where
  addrCol := colMemAddr
  valCols := [colMemVal]
  loadSels := [colSelLoad, colSelLr].map Fin.val
  storeSels := [colSelStore, colSelSc, colSelAmoSwap, colSelAmoAdd, colSelAmoBitwise,
    colSelAmoCompare, colSelAtomicOther, colSelAmoOr, colSelAmoXor, colSelAmoMaxu,
    colSelAmoMins, colSelAmoMaxs].map Fin.val
  distinct := by decide
  apart := by decide

def registerPorts : RegisterPorts where
  list := [⟨colRs1, colRs1Val, false⟩, ⟨colRs2, colRs2Val, false⟩,
    ⟨colRd, colRdValAfter, true⟩]
  distinct := by decide
  apart := by decide

end MetaVm.Riscv.Constraints

namespace MetaVm.Riscv.Constraints

/-! The instruction type and function codes the domain evaluation dispatches
on. The function codes of different types overlap. -/

abbrev Code : Type := BitVec 8

abbrev insnRAlu : Code := 0
abbrev insnIAlu : Code := 1
abbrev insnWAlu : Code := 2
abbrev insnMuldiv : Code := 3
abbrev insnLoad : Code := 4
abbrev insnStore : Code := 5
abbrev insnBranch : Code := 6
abbrev insnJal : Code := 7
abbrev insnJalr : Code := 8
abbrev insnLui : Code := 9
abbrev insnAuipc : Code := 10
abbrev insnCsr : Code := 11
abbrev insnSystem : Code := 12
abbrev insnAtomic : Code := 13

abbrev functAdd : Code := 0
abbrev functSub : Code := 1
abbrev functSll : Code := 2
abbrev functSlt : Code := 3
abbrev functSltu : Code := 4
abbrev functXor : Code := 5
abbrev functSrl : Code := 6
abbrev functSra : Code := 7
abbrev functOr : Code := 8
abbrev functAnd : Code := 9

abbrev functAddi : Code := 0
abbrev functSlti : Code := 1
abbrev functSltiu : Code := 2
abbrev functXori : Code := 3
abbrev functOri : Code := 4
abbrev functAndi : Code := 5
abbrev functSlli : Code := 6
abbrev functSrli : Code := 7
abbrev functSrai : Code := 8

abbrev functAddw : Code := 0
abbrev functSubw : Code := 1
abbrev functSllw : Code := 2
abbrev functSrlw : Code := 3
abbrev functSraw : Code := 4
abbrev functAddiw : Code := 5
abbrev functSlliw : Code := 6
abbrev functSrliw : Code := 7
abbrev functSraiw : Code := 8

abbrev functBeq : Code := 0
abbrev functBne : Code := 1
abbrev functBlt : Code := 2
abbrev functBge : Code := 3
abbrev functBltu : Code := 4
abbrev functBgeu : Code := 5

abbrev functLb : Code := 0
abbrev functLh : Code := 1
abbrev functLw : Code := 2
abbrev functLd : Code := 3
abbrev functLbu : Code := 4
abbrev functLhu : Code := 5
abbrev functLwu : Code := 6

abbrev functSb : Code := 0
abbrev functSh : Code := 1
abbrev functSw : Code := 2
abbrev functSd : Code := 3

abbrev functCsrrw : Code := 0
abbrev functCsrrs : Code := 1
abbrev functCsrrc : Code := 2
abbrev functCsrrwi : Code := 3
abbrev functCsrrsi : Code := 4
abbrev functCsrrci : Code := 5

abbrev functLrW : Code := 0
abbrev functLrD : Code := 1
abbrev functScW : Code := 2
abbrev functScD : Code := 3
abbrev functAmoswapW : Code := 4
abbrev functAmoswapD : Code := 5
abbrev functAmoaddW : Code := 6
abbrev functAmoaddD : Code := 7
abbrev functAmoandW : Code := 8
abbrev functAmoandD : Code := 9
abbrev functAmoorW : Code := 10
abbrev functAmoorD : Code := 11
abbrev functAmoxorW : Code := 12
abbrev functAmoxorD : Code := 13
abbrev functAmomaxW : Code := 14
abbrev functAmomaxD : Code := 15
abbrev functAmominW : Code := 16
abbrev functAmominD : Code := 17
abbrev functAmomaxuW : Code := 18
abbrev functAmomaxuD : Code := 19
abbrev functAmominuW : Code := 20
abbrev functAmominuD : Code := 21

end MetaVm.Riscv.Constraints
