import MetaVm.Zkp.NonnativeDivision

namespace MetaVm.Zkp.Nonnative

open Evm Evm.Limbs LimbChain

/-! The base field of the curve, in six limbs. -/

def pLimbs : BeLimbs 6 :=
  #v[0x1a0111ea397fe69a, 0x4b1ba7b6434bacd7, 0x64774b84f38512bf, 0x6730d2a0f6b0f624,
    0x1eabfffeb153ffff, 0xb9feffffffffaaab]

structure Fp where
  limbs : BeLimbs 6
deriving DecidableEq

structure AddWitness where
  a : BeLimbs 6
  b : BeLimbs 6
  sum : BeLimbs 6
  addCarries : Vector U64 7
  trialDiff : BeLimbs 6
  subBorrows : Vector U64 7
  reduceFlag : U64
  result : BeLimbs 6

structure SubWitness where
  a : BeLimbs 6
  b : BeLimbs 6
  diff : BeLimbs 6
  subBorrows : Vector U64 7
  trialSum : BeLimbs 6
  addCarries : Vector U64 7
  addBackFlag : U64
  result : BeLimbs 6

structure MulWitness where
  a : BeLimbs 6
  b : BeLimbs 6
  product : BeLimbs 12
  q : BeLimbs 6
  r : BeLimbs 6
  qTimesP : BeLimbs 12

namespace Fp

def fromU64 (x : U64) : Fp := ⟨#v[0, 0, 0, 0, 0, x]⟩

def zero : Fp := ⟨Vector.replicate 6 0⟩

def one : Fp := fromU64 1

def isZero (self : Fp) : Bool := self.limbs == Vector.replicate 6 0

def addWitness (self other : Fp) : AddWitness :=
  let sum := addChain self.limbs other.limbs
  let trialDiff := subChain sum.1 pLimbs
  let reduceFlag : U64 := if sum.2 = 1 ∨ trialDiff.2 = 0 then 1 else 0
  { a := self.limbs
    b := other.limbs
    sum := sum.1
    addCarries := carries (addRounds (lowFirst self.limbs) (lowFirst other.limbs))
    trialDiff := trialDiff.1
    subBorrows := carries (subRounds (lowFirst sum.1) (lowFirst pLimbs))
    reduceFlag := reduceFlag
    result := if reduceFlag = 1 then trialDiff.1 else sum.1 }

def add (self other : Fp) : Fp := ⟨(self.addWitness other).result⟩

def subWitness (self other : Fp) : SubWitness :=
  let diff := subChain self.limbs other.limbs
  let trialSum := addChain diff.1 pLimbs
  let addBackFlag : U64 := BitVec.ofNat 64 diff.2
  { a := self.limbs
    b := other.limbs
    diff := diff.1
    subBorrows := carries (subRounds (lowFirst self.limbs) (lowFirst other.limbs))
    trialSum := trialSum.1
    addCarries := carries (addRounds (lowFirst diff.1) (lowFirst pLimbs))
    addBackFlag := addBackFlag
    result := if addBackFlag = 1 then trialSum.1 else diff.1 }

def sub (self other : Fp) : Fp := ⟨(self.subWitness other).result⟩

def neg (self : Fp) : Fp := if self.isZero then zero else ⟨(sub6 pLimbs self.limbs).1⟩

def mulWitness (self other : Fp) : MulWitness :=
  let product := mul6By6Be self.limbs other.limbs
  let division := divmod12By6 product pLimbs
  { a := self.limbs
    b := other.limbs
    product := product
    q := division.1
    r := division.2
    qTimesP := mul6By6Be division.1 pLimbs }

def mul (self other : Fp) : Fp := ⟨(self.mulWitness other).r⟩

def square (self : Fp) : Fp := self.mul self

/-- One bit of the exponent. The flag tells whether a bit was set before. -/
def powStep (self : Fp) (limb : U64) (state : Fp × Bool) (bit : ℕ) : Fp × Bool :=
  let result := if state.2 then state.1.square else state.1
  if limb >>> bit &&& 1 = 1 then
    if !state.2 then (self, true) else (result.mul self, true)
  else (result, state.2)

/-- `self ^ exp`, from the highest bit of the exponent down. -/
def pow (self : Fp) (exp : BeLimbs 6) : Fp :=
  let state := (List.range 6).foldl (fun state i =>
    (List.range 64).foldl (fun state k => self.powStep (entry exp i) state (63 - k)) state)
      (one, false)
  if !state.2 then one else state.1

def invert (self : Fp) : Option Fp :=
  if self.isZero then none
  else some (self.pow (sub6 pLimbs #v[0, 0, 0, 0, 0, 2]).1)

end Fp

/-! The quadratic extension with `u ^ 2 = -1`. -/

structure Fp2 where
  c0 : Fp
  c1 : Fp
deriving DecidableEq

namespace Fp2

def zero : Fp2 := ⟨.zero, .zero⟩

def one : Fp2 := ⟨.one, .zero⟩

def isZero (self : Fp2) : Bool := self.c0.isZero && self.c1.isZero

def add (self other : Fp2) : Fp2 := ⟨self.c0.add other.c0, self.c1.add other.c1⟩

def sub (self other : Fp2) : Fp2 := ⟨self.c0.sub other.c0, self.c1.sub other.c1⟩

def neg (self : Fp2) : Fp2 := ⟨self.c0.neg, self.c1.neg⟩

def conjugate (self : Fp2) : Fp2 := ⟨self.c0, self.c1.neg⟩

def mul (self other : Fp2) : Fp2 :=
  let t0 := self.c0.mul other.c0
  let t1 := self.c1.mul other.c1
  let sumA := self.c0.add self.c1
  let sumB := other.c0.add other.c1
  let tCross := sumA.mul sumB
  let t2 := (tCross.sub t0).sub t1
  ⟨t0.sub t1, t2⟩

def square (self : Fp2) : Fp2 :=
  let a := self.c0.add self.c1
  let b := self.c0.sub self.c1
  let c0c1 := self.c0.mul self.c1
  ⟨a.mul b, c0c1.add c0c1⟩

def invert (self : Fp2) : Option Fp2 :=
  if self.isZero then none
  else do
    let normInv ← (self.c0.square.add self.c1.square).invert
    return ⟨self.c0.mul normInv, self.c1.neg.mul normInv⟩

/-- The product with `u`. -/
def mulByNonresidue (self : Fp2) : Fp2 := ⟨self.c1.neg, self.c0⟩

end Fp2

end MetaVm.Zkp.Nonnative
