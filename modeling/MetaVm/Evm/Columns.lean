import MetaVm.Lib.Numerals

namespace MetaVm.Evm

/-! The columns of the trace that the constraints read. -/

abbrev Column : Type := Fin 275

instance neZero_columns : NeZero 275 := ⟨by decide⟩

/-- The evaluations of all columns at one point, or on one row. -/
abbrev Row (F : Type) : Type := Column → F

/-! The instruction and its operands, four limbs to a word, the lowest one first. -/

abbrev colPc : Column := 0
abbrev colInput0L0 : Column := 4
abbrev colInput0L1 : Column := 5
abbrev colInput0L2 : Column := 6
abbrev colInput0L3 : Column := 7
abbrev colInput1L0 : Column := 8
abbrev colInput1L1 : Column := 9
abbrev colInput1L2 : Column := 10
abbrev colInput1L3 : Column := 11
abbrev colOutput0L0 : Column := 12
abbrev colOutput0L1 : Column := 13
abbrev colOutput0L2 : Column := 14
abbrev colOutput0L3 : Column := 15
abbrev colMemOffset : Column := 16
abbrev colMemValueL0 : Column := 17
abbrev colMemValueL1 : Column := 18
abbrev colMemValueL2 : Column := 19
abbrev colMemValueL3 : Column := 20
abbrev colInsnType : Column := 21
abbrev colFunct : Column := 22
abbrev colImmediateL0 : Column := 23
abbrev colImmediateL1 : Column := 24
abbrev colImmediateL2 : Column := 25
abbrev colImmediateL3 : Column := 26
abbrev colAux0L0 : Column := 27
abbrev colAux0L1 : Column := 28
abbrev colAux0L2 : Column := 29
abbrev colAux0L3 : Column := 30
abbrev colAux1L0 : Column := 31
abbrev colAux1L1 : Column := 32
abbrev colAux1L2 : Column := 33
abbrev colAux1L3 : Column := 34

/-! One-hot selectors of the instruction class. -/

abbrev colSelStop : Column := 35
abbrev colSelArithAdd : Column := 36
abbrev colSelArithSub : Column := 37
abbrev colSelArithMul : Column := 38
abbrev colSelArithDiv : Column := 39
abbrev colSelMod : Column := 40
abbrev colSelSdiv : Column := 41
abbrev colSelSmod : Column := 42
abbrev colSelAddmod : Column := 43
abbrev colSelMulmod : Column := 44
abbrev colSelExp : Column := 45
abbrev colSelSignextend : Column := 46
abbrev colSelLt : Column := 47
abbrev colSelGt : Column := 48
abbrev colSelEq : Column := 49
abbrev colSelIszero : Column := 50
abbrev colSelCompareOther : Column := 51
abbrev colSelAnd : Column := 52
abbrev colSelOr : Column := 53
abbrev colSelXor : Column := 54
abbrev colSelBitwiseOther : Column := 55
abbrev colSelShl : Column := 56
abbrev colSelShr : Column := 57
abbrev colSelSar : Column := 58
abbrev colSelKeccak : Column := 59
abbrev colSelEnv : Column := 60
abbrev colSelBlock : Column := 61
abbrev colSelPush : Column := 62
abbrev colSelDup : Column := 63
abbrev colSelPop : Column := 64
abbrev colSelSwap : Column := 65
abbrev colSelStackOther : Column := 66
abbrev colSelMload : Column := 67
abbrev colSelMstore : Column := 68
abbrev colSelMstore8 : Column := 69
abbrev colSelMsize : Column := 70
abbrev colSelMemoryOther : Column := 71
abbrev colSelStorage : Column := 72
abbrev colSelJump : Column := 73
abbrev colSelLog : Column := 74
abbrev colSelCall : Column := 75

/-! Sign extension: the program counter that follows, a case for every byte position,
and the byte that holds the sign. -/

abbrev colNextPc : Column := 76
abbrev colSelSe0 : Column := 77
abbrev colSelSeGe31 : Column := 108
abbrev colSeByte0 : Column := 109
abbrev colSeLow7 : Column := 117
abbrev colSeSignBit : Column := 118

/-! The witness of a product modulo a word. -/

abbrev colMulmodQL0 : Column := 119
abbrev colMulmodQL1 : Column := 120
abbrev colMulmodQL2 : Column := 121
abbrev colMulmodQL3 : Column := 122
abbrev colMulmodPL0 : Column := 123
abbrev colMulmodPL1 : Column := 124
abbrev colMulmodPL2 : Column := 125
abbrev colMulmodPL3 : Column := 126
abbrev colMulmodPL4 : Column := 127
abbrev colMulmodPL5 : Column := 128
abbrev colMulmodPL6 : Column := 129
abbrev colMulmodPL7 : Column := 130
abbrev colMulmodPc0 : Column := 131
abbrev colMulmodPc1 : Column := 132
abbrev colMulmodPc2 : Column := 133
abbrev colMulmodPc3 : Column := 134
abbrev colMulmodPc4 : Column := 135
abbrev colMulmodPc5 : Column := 136
abbrev colMulmodPc6 : Column := 137
abbrev colMulmodSc0 : Column := 138
abbrev colMulmodSc1 : Column := 139
abbrev colMulmodSc2 : Column := 140
abbrev colMulmodSc3 : Column := 141
abbrev colMulmodSc4 : Column := 142
abbrev colMulmodSc5 : Column := 143
abbrev colMulmodSc6 : Column := 144
abbrev colMulmodSlackL0 : Column := 145
abbrev colMulmodSlackL1 : Column := 146
abbrev colMulmodSlackL2 : Column := 147
abbrev colMulmodSlackL3 : Column := 148
abbrev colMulmodSlackB0 : Column := 149
abbrev colMulmodSlackB1 : Column := 150
abbrev colMulmodSlackB2 : Column := 151
abbrev colMulmodSlackB3 : Column := 152
abbrev colMulmodNIsZero : Column := 153

/-! The witness of a sum modulo a word. -/

abbrev colAddmodQL0 : Column := 154
abbrev colAddmodQL1 : Column := 155
abbrev colAddmodQL2 : Column := 156
abbrev colAddmodQL3 : Column := 157
abbrev colAddmodSLowL0 : Column := 158
abbrev colAddmodSLowL1 : Column := 159
abbrev colAddmodSLowL2 : Column := 160
abbrev colAddmodSLowL3 : Column := 161
abbrev colAddmodSHigh : Column := 162
abbrev colAddmodAbCarry0 : Column := 163
abbrev colAddmodAbCarry1 : Column := 164
abbrev colAddmodAbCarry2 : Column := 165
abbrev colAddmodAbCarry3 : Column := 166
abbrev colAddmodQnPL0 : Column := 167
abbrev colAddmodQnPL1 : Column := 168
abbrev colAddmodQnPL2 : Column := 169
abbrev colAddmodQnPL3 : Column := 170
abbrev colAddmodQnPL4 : Column := 171
abbrev colAddmodQnPL5 : Column := 172
abbrev colAddmodQnPL6 : Column := 173
abbrev colAddmodQnPL7 : Column := 174
abbrev colAddmodQnCarry0 : Column := 175
abbrev colAddmodQnCarry1 : Column := 176
abbrev colAddmodQnCarry2 : Column := 177
abbrev colAddmodQnCarry3 : Column := 178
abbrev colAddmodQnCarry4 : Column := 179
abbrev colAddmodQnCarry5 : Column := 180
abbrev colAddmodQnCarry6 : Column := 181
abbrev colAddmodSumCarry0 : Column := 182
abbrev colAddmodSumCarry1 : Column := 183
abbrev colAddmodSumCarry2 : Column := 184
abbrev colAddmodSumCarry3 : Column := 185
abbrev colAddmodSumCarry4 : Column := 186
abbrev colAddmodSumCarry5 : Column := 187
abbrev colAddmodSumCarry6 : Column := 188
abbrev colAddmodSumCarry7 : Column := 189
abbrev colAddmodSumCarry8 : Column := 190
abbrev colAddmodSlackL0 : Column := 191
abbrev colAddmodSlackL1 : Column := 192
abbrev colAddmodSlackL2 : Column := 193
abbrev colAddmodSlackL3 : Column := 194
abbrev colAddmodSlackB0 : Column := 195
abbrev colAddmodSlackB1 : Column := 196
abbrev colAddmodSlackB2 : Column := 197
abbrev colAddmodSlackB3 : Column := 198
abbrev colAddmodNIsZero : Column := 199

/-! The frame that the row belongs to. -/

abbrev colFrameDepth : Column := 200
abbrev colFrameCallerL0 : Column := 201
abbrev colFrameCallerL1 : Column := 202
abbrev colFrameCallerL2 : Column := 203
abbrev colFrameCallerL3 : Column := 204
abbrev colFrameCalleeL0 : Column := 205
abbrev colFrameCalleeL1 : Column := 206
abbrev colFrameCalleeL2 : Column := 207
abbrev colFrameCalleeL3 : Column := 208
abbrev colFrameValueL0 : Column := 209
abbrev colFrameValueL1 : Column := 210
abbrev colFrameValueL2 : Column := 211
abbrev colFrameValueL3 : Column := 212
abbrev colFrameGas : Column := 213
abbrev colFrameReturnPc : Column := 214
abbrev colFrameReturnOffset : Column := 215
abbrev colFrameReturnSize : Column := 216

/-! Instructions that push and pop frames, and the hints they use. -/

abbrev colSelCallPushFrame : Column := 217
abbrev colSelCallReturn : Column := 218
abbrev colSelCreate : Column := 219
abbrev colSelCallcode : Column := 220
abbrev colSelDelegatecall : Column := 221
abbrev colSelCreate2 : Column := 222
abbrev colSelStaticcall : Column := 223
abbrev colSelRevert : Column := 224
abbrev colFrameStatic : Column := 225
abbrev colCreateAddressHintL0 : Column := 226
abbrev colSelStopPop : Column := 231

/-! Selectors of single instructions, and what they read. -/

abbrev colSelByteOp : Column := 240

end MetaVm.Evm
