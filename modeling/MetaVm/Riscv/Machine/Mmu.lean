import MetaVm.Riscv.Machine.Memory

namespace MetaVm.Riscv

/-! Sv39 translation. -/

inductive AccessType
  | execute
  | read
  | write
deriving DecidableEq, Repr

structure PageFault where
  accessType : AccessType
  vaddr : Word
deriving DecidableEq, Repr

structure PageTableEntry where
  val : Word

namespace PageTableEntry

def valid (pte : PageTableEntry) : Bool := pte.val &&& 1 ≠ 0

def read (pte : PageTableEntry) : Bool := pte.val &&& (1 <<< 1) ≠ 0

def write (pte : PageTableEntry) : Bool := pte.val &&& (1 <<< 2) ≠ 0

def execute (pte : PageTableEntry) : Bool := pte.val &&& (1 <<< 3) ≠ 0

def user (pte : PageTableEntry) : Bool := pte.val &&& (1 <<< 4) ≠ 0

def accessed (pte : PageTableEntry) : Bool := pte.val &&& (1 <<< 6) ≠ 0

def dirty (pte : PageTableEntry) : Bool := pte.val &&& (1 <<< 7) ≠ 0

def isLeaf (pte : PageTableEntry) : Bool := pte.read || pte.execute

def ppn (pte : PageTableEntry) : Word := (pte.val >>> 10) &&& 0xFFFFFFFFFFF

def ppnI (pte : PageTableEntry) (level : ℕ) : Word :=
  match level with
  | 0 => (pte.val >>> 10) &&& 0x1FF
  | 1 => (pte.val >>> 19) &&& 0x1FF
  | 2 => (pte.val >>> 28) &&& 0x3FFFFFF
  | _ => 0

end PageTableEntry

/-- A physical address, the page table entry to write back with its address,
and the permission bits of the leaf. -/
structure Translation where
  pa : Word
  pteUpdate : Option (Word × Word)
  pteFlags : Byte
deriving DecidableEq, Repr

/-- One access to translate: its address and the rights it comes with. -/
structure Access where
  vaddr : Word
  accessType : AccessType
  privilege : Word
  sum : Bool
  mxr : Bool

namespace Access

def fault (access : Access) : PageFault := ⟨access.accessType, access.vaddr⟩

def vpn (access : Access) (level : ℕ) : Word :=
  (access.vaddr >>> (12 + 9 * level)) &&& 0x1FF

/-- The permission bits and the user bit of a leaf allow the access. -/
def permitted (access : Access) (pte : PageTableEntry) : Bool :=
  let rights :=
    match access.accessType with
    | .read => pte.read || (access.mxr && pte.execute)
    | .write => pte.write
    | .execute => pte.execute
  let level :=
    if pte.user then !(access.privilege = 1 && !access.sum)
    else !(access.privilege = 0 : Bool)
  rights && level

/-- The accessed and dirty bits that the access has to set. -/
def pteUpdate (access : Access) (pteAddr : Word) (pte : PageTableEntry) :
    Option (Word × Word) :=
  let needsA := !pte.accessed
  let needsD := (access.accessType = .write : Bool) && !pte.dirty
  if needsA || needsD then
    let newPte := pte.val ||| (1 <<< 6)
    some (pteAddr, if needsD then newPte ||| (1 <<< 7) else newPte)
  else none

/-- The address in the page, megapage or gigapage of a leaf. -/
def physical (access : Access) (level : ℕ) (pte : PageTableEntry) : Word :=
  let pageOffset := access.vaddr &&& 0xFFF
  match level with
  | 0 => (pte.ppn <<< 12) ||| pageOffset
  | 1 => ((pte.ppn &&& ~~~0x1FF) <<< 12) ||| (access.vpn 0 <<< 12) ||| pageOffset
  | _ =>
      ((pte.ppn &&& ~~~0x3FFFF) <<< 12) ||| (access.vpn 1 <<< 21) |||
        (access.vpn 0 <<< 12) ||| pageOffset

def leaf (access : Access) (level : ℕ) (pteAddr : Word) (pte : PageTableEntry) :
    Except PageFault Translation :=
  if 1 ≤ level ∧ pte.ppnI 0 ≠ 0 then .error access.fault
  else if level = 2 ∧ pte.ppnI 1 ≠ 0 then .error access.fault
  else if access.permitted pte then
    .ok ⟨access.physical level pte, access.pteUpdate pteAddr pte,
      (pte.val &&& 0xE).setWidth 8⟩
  else .error access.fault

/-- The walk from the table at `a` down to a leaf. -/
def walk (access : Access) (memory : Memory) (level : ℕ) (a : Word) :
    Except PageFault Translation :=
  let pteAddr := a + access.vpn level * 8
  let pte : PageTableEntry := ⟨memory.loadDouble pteAddr⟩
  if !pte.valid then .error access.fault
  else if pte.write && !pte.read then .error access.fault
  else if pte.isLeaf then access.leaf level pteAddr pte
  else
    match level with
    | 0 => .error access.fault
    | next + 1 => access.walk memory next (pte.ppn <<< 12)

end Access

def translate (memory : Memory) (satp : Word) (access : Access) :
    Except PageFault Translation :=
  let mode := (satp >>> 60) &&& 0xF
  if mode = 0 then .ok ⟨access.vaddr, none, 0xE⟩
  else if mode ≠ 8 then .error access.fault
  else
    let bit38 := (access.vaddr >>> 38) &&& 1
    let upper := access.vaddr >>> 39
    if bit38 = 0 ∧ upper ≠ 0 then .error access.fault
    else if bit38 = 1 ∧ upper ≠ 0x1FFFFFF then .error access.fault
    else access.walk memory 2 ((satp &&& 0xFFFFFFFFFFF) <<< 12)

end MetaVm.Riscv
