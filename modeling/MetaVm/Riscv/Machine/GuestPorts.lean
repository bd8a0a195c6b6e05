import MetaVm.Riscv.Machine.ByteAccess

namespace MetaVm.Riscv

/-! Devices behind their ports: a word that a guest stores or loads is four bytes of a device. -/

/-- The bytes of a value, stored one after another, the lowest first. -/
def storeBytes {Device : Type} {width : ℕ} (writeU8 : Device → Word → Byte → Device) :
    Device → List Word → BitVec width → Device
  | dev, [], _ => dev
  | dev, offset :: rest, val =>
      storeBytes writeU8 (writeU8 dev offset (val.setWidth 8)) rest (val >>> 8)

/-- A device at the addresses from `base` on, and its place in a machine. Reading a byte changes
nothing. -/
structure Port (Device : Type) where
  base : Word
  size : ℕ
  readU8 : Device → Word → Byte
  writeU8 : Device → Word → Byte → Device
  find : Vm → Option Device
  put : Vm → Device → Vm
  below : base.toNat + size ≤ Vm.ramBase.toNat
  find_put : ∀ {vm dev} (next), find vm = some dev → find (put vm next) = some next
  put_put : ∀ vm dev next, put (put vm dev) next = put vm next
  load : ∀ {vm dev} {offset : Word}, find vm = some dev → offset.toNat < size →
    vm.mmioLoadByte (base + offset) = (readU8 dev offset, vm)
  store : ∀ {vm dev} {offset : Word} (val), find vm = some dev → offset.toNat < size →
    vm.mmioStoreByte (base + offset) val = put vm (writeU8 dev offset val)

namespace Port

variable {Device : Type} (port : Port Device) {vm : Vm} {dev : Device} {offset : Word}

theorem bytesFrom_port (offset : Word) (count : ℕ) :
    bytesFrom (port.base + offset) count = (bytesFrom offset count).map (port.base + ·) := by
  rw [bytesFrom, bytesFrom, List.map_map]
  exact List.map_congr_left fun index _ => BitVec.add_assoc _ _ _

theorem inside_bytesFrom {count : ℕ} (inside : offset.toNat + count ≤ port.size) :
    ∀ other ∈ bytesFrom offset count, other.toNat < port.size := by
  intro other member
  obtain ⟨index, few, rfl⟩ := List.mem_map.1 member
  have below := port.below
  have high : Vm.ramBase.toNat = 0x80000000 := rfl
  have bound := List.mem_range.1 few
  rw [BitVec.toNat_add, BitVec.toNat_ofNat]
  omega

theorem fits (inside : offset.toNat + 4 ≤ port.size) :
    (port.base + offset).toNat + 4 ≤ 2 ^ 64 := by
  have below := port.below
  have high : Vm.ramBase.toNat = 0x80000000 := rfl
  rw [BitVec.toNat_add]
  omega

theorem readBytes (found : port.find vm = some dev) {offsets : List Word}
    (inside : ∀ other ∈ offsets, other.toNat < port.size) :
    Vm.readBytes false vm (offsets.map (port.base + ·)) = (offsets.map (port.readU8 dev), vm) := by
  induction offsets with
  | nil => rfl
  | cons offset rest hypothesis =>
      rw [List.forall_mem_cons] at inside
      rw [List.map_cons, List.map_cons, Vm.readBytes, Vm.readByteAt, if_neg Bool.false_ne_true,
        port.load found inside.1]
      dsimp only
      rw [hypothesis inside.2]

theorem writeBytes {width : ℕ} (found : port.find vm = some dev) {offsets : List Word}
    (inside : ∀ other ∈ offsets, other.toNat < port.size) (val : BitVec width) :
    Vm.writeBytes false vm (offsets.map (port.base + ·)) val =
      if offsets = [] then vm else port.put vm (storeBytes port.writeU8 dev offsets val) := by
  induction offsets generalizing vm dev val with
  | nil => rfl
  | cons offset rest hypothesis =>
      rw [List.forall_mem_cons] at inside
      rw [List.map_cons, Vm.writeBytes, Vm.writeByteAt, if_neg Bool.false_ne_true,
        port.store _ found inside.1, hypothesis (port.find_put _ found) inside.2,
        if_neg (List.cons_ne_nil _ _), storeBytes]
      cases rest with
      | nil => rfl
      | cons other rest => rw [if_neg (List.cons_ne_nil _ _), port.put_put]

theorem mmioStoreWord (found : port.find vm = some dev) (inside : offset.toNat + 4 ≤ port.size)
    (val : BitVec 32) : vm.mmioStoreWord (port.base + offset) val =
      port.put vm (storeBytes port.writeU8 dev (bytesFrom offset 4) val) := by
  rw [Vm.mmioStoreWord_slow vm val (port.fits inside), bytesFrom_port,
    port.writeBytes found (port.inside_bytesFrom inside)]
  exact if_neg (List.cons_ne_nil _ _)

theorem mmioLoadWord (found : port.find vm = some dev) (inside : offset.toNat + 4 ≤ port.size) :
    vm.mmioLoadWord (port.base + offset) =
      (ByteOrder.ofBytes 32 ((bytesFrom offset 4).map (port.readU8 dev)), vm) := by
  rw [Vm.mmioLoadWord_slow vm (port.fits inside), bytesFrom_port, Vm.readValue,
    port.readBytes found (port.inside_bytesFrom inside)]

end Port

/-! The three devices' ports. -/

section Ports

theorem inRange_iff {addr base size : Word} (fits : base.toNat + size.toNat < 2 ^ 64) :
    InRange addr base size ↔
      base.toNat ≤ addr.toNat ∧ addr.toNat < base.toNat + size.toNat := by
  rw [InRange, BitVec.le_def, BitVec.lt_def, BitVec.toNat_add, Nat.mod_eq_of_lt fits]

variable {vm : Vm} {base size offset : Word}

/-- The addresses of a window below the RAM. -/
theorem toNat_window (below : base.toNat + size.toNat ≤ Vm.ramBase.toNat)
    (inside : offset.toNat < size.toNat) :
    (base + offset).toNat = base.toNat + offset.toNat ∧ ¬ Vm.ramBase ≤ base + offset := by
  have high : Vm.ramBase.toNat = 0x80000000 := rfl
  have sum : (base + offset).toNat = base.toNat + offset.toNat := by
    rw [BitVec.toNat_add]
    omega
  refine ⟨sum, ?_⟩
  rw [BitVec.le_def]
  omega

theorem offset_of_window (base offset : Word) : base + offset - base = offset := by
  rw [BitVec.add_comm, BitVec.add_sub_cancel]

theorem inRange_window (below : base.toNat + size.toNat ≤ Vm.ramBase.toNat)
    (inside : offset.toNat < size.toNat) : InRange (base + offset) base size := by
  have high : Vm.ramBase.toNat = 0x80000000 := rfl
  rw [inRange_iff (by omega), (toNat_window below inside).1]
  omega

/-- Windows that are apart share no address. -/
theorem not_inRange_of_apart {other length : Word} (fits : other.toNat + length.toNat < 2 ^ 64)
    (below : base.toNat + size.toNat ≤ Vm.ramBase.toNat) (inside : offset.toNat < size.toNat)
    (apart : other.toNat + length.toNat ≤ base.toNat ∨ base.toNat + size.toNat ≤ other.toNat) :
    ¬ InRange (base + offset) other length := by
  rw [inRange_iff fits, (toNat_window below inside).1]
  omega

def Vm.putClint (vm : Vm) (clint : ClintDevice) : Vm :=
  { vm with mmio := { vm.mmio with clint := clint } }

def Vm.putPlic (vm : Vm) (plic : PlicDevice) : Vm :=
  { vm with mmio := { vm.mmio with plic := plic } }

def Vm.putVirtio (vm : Vm) (index : ℕ) (dev : VirtioBlockDevice) : Vm :=
  { vm with mmio := { vm.mmio with virtioDevices := vm.mmio.virtioDevices.set index dev } }

def clintPort : Port ClintDevice where
  base := Clint.base
  size := Clint.size.toNat
  readU8 := ClintDevice.readU8
  writeU8 := ClintDevice.writeU8
  find vm := some vm.mmio.clint
  put := Vm.putClint
  below := by decide
  find_put _ _ := rfl
  put_put _ _ _ := rfl
  load := by
    intro vm dev offset found inside
    obtain rfl := Option.some.inj found
    have below : Clint.base.toNat + Clint.size.toNat ≤ Vm.ramBase.toNat := by decide
    rw [Vm.mmioLoadByte, if_neg (toNat_window below inside).2, MmioController.readByte,
      if_neg (not_inRange_of_apart (by decide) below inside (by decide)),
      if_pos (inRange_window below inside), offset_of_window]
    rfl
  store := by
    intro vm dev offset val found inside
    obtain rfl := Option.some.inj found
    have below : Clint.base.toNat + Clint.size.toNat ≤ Vm.ramBase.toNat := by decide
    rw [Vm.mmioStoreByte, if_neg (toNat_window below inside).2, MmioController.writeByte,
      if_neg (not_inRange_of_apart (by decide) below inside (by decide)),
      if_pos (inRange_window below inside), offset_of_window]
    rfl

def plicPort : Port PlicDevice where
  base := Plic.base
  size := Plic.size.toNat
  readU8 := PlicDevice.readU8
  writeU8 := PlicDevice.writeU8
  find vm := some vm.mmio.plic
  put := Vm.putPlic
  below := by decide
  find_put _ _ := rfl
  put_put _ _ _ := rfl
  load := by
    intro vm dev offset found inside
    obtain rfl := Option.some.inj found
    have below : Plic.base.toNat + Plic.size.toNat ≤ Vm.ramBase.toNat := by decide
    rw [Vm.mmioLoadByte, if_neg (toNat_window below inside).2, MmioController.readByte,
      if_neg (not_inRange_of_apart (by decide) below inside (by decide)),
      if_neg (not_inRange_of_apart (by decide) below inside (by decide)),
      if_pos (inRange_window below inside), offset_of_window]
    rfl
  store := by
    intro vm dev offset val found inside
    obtain rfl := Option.some.inj found
    have below : Plic.base.toNat + Plic.size.toNat ≤ Vm.ramBase.toNat := by decide
    rw [Vm.mmioStoreByte, if_neg (toNat_window below inside).2, MmioController.writeByte,
      if_neg (not_inRange_of_apart (by decide) below inside (by decide)),
      if_neg (not_inRange_of_apart (by decide) below inside (by decide)),
      if_pos (inRange_window below inside), offset_of_window]
    rfl

/-- A block device at this place has its registers below the RAM. -/
def BelowRam (index : ℕ) : Prop := 0x10001000 + (index + 1) * 0x200 ≤ 0x80000000

theorem BelowRam.earlier {index earlier : ℕ} (below : BelowRam index) (before : earlier < index) :
    BelowRam earlier :=
  (Nat.add_le_add_left (Nat.mul_le_mul_right _ (Nat.succ_le_succ before.le)) _).trans below

open MmioController in
theorem toNat_virtioBase {index : ℕ} (below : BelowRam index) :
    (virtioBase index).toNat = 0x10001000 + index * 0x200 := by
  have size : Virtio.size.toNat = 0x200 := rfl
  have base : Virtio.base.toNat = 0x10001000 := rfl
  rw [BelowRam] at below
  rw [virtioBase, BitVec.toNat_add, BitVec.toNat_mul, BitVec.toNat_ofNat, size, base]
  omega

open MmioController in
theorem virtio_window {index : ℕ} (below : BelowRam index) :
    (virtioBase index).toNat + Virtio.size.toNat ≤ Vm.ramBase.toNat := by
  have size : Virtio.size.toNat = 0x200 := rfl
  have high : Vm.ramBase.toNat = 0x80000000 := rfl
  have here := toNat_virtioBase below
  unfold BelowRam at below
  omega

open MmioController in
/-- The first device that maps an address of a device's window is that device. -/
theorem virtioIndex_window {mmio : MmioController} {index : ℕ} {offset : Word}
    (below : BelowRam index) (inside : offset.toNat < Virtio.size.toNat)
    (present : index < mmio.virtioDevices.length) :
    mmio.virtioIndex (virtioBase index + offset) = some index := by
  have size : Virtio.size.toNat = 0x200 := rfl
  have here := toNat_virtioBase below
  have window := virtio_window below
  rw [virtioIndex, List.find?_range_eq_some]
  refine ⟨decide_eq_true (inRange_window window inside), List.mem_range.2 present, ?_⟩
  intro earlier before
  have there := toNat_virtioBase (below.earlier before)
  have out : ¬ InRange (virtioBase index + offset) (virtioBase earlier) Virtio.size :=
    not_inRange_of_apart (by omega) window inside (.inl (by omega))
  rw [decide_eq_false out]
  rfl

open MmioController in
/-- The port of a block device that is mapped below the RAM. -/
def virtioPort (index : ℕ) (below : BelowRam index) : Port VirtioBlockDevice where
  base := virtioBase index
  size := Virtio.size.toNat
  readU8 := VirtioBlockDevice.readU8
  writeU8 := VirtioBlockDevice.writeU8
  find vm := vm.mmio.virtioDevices[index]?
  put vm dev := vm.putVirtio index dev
  below := virtio_window below
  find_put := by
    intro vm dev next found
    obtain ⟨present, -⟩ := List.getElem?_eq_some_iff.1 found
    exact List.getElem?_set_self present
  put_put vm dev next := by simp only [Vm.putVirtio, List.set_set]
  load := by
    intro vm dev offset found inside
    obtain ⟨present, -⟩ := List.getElem?_eq_some_iff.1 found
    have window := virtio_window below
    have above : 0x10001000 ≤ (virtioBase index).toNat := by
      have here := toNat_virtioBase below
      omega
    rw [Vm.mmioLoadByte, if_neg (toNat_window window inside).2, readByte,
      if_neg (not_inRange_of_apart (by decide) window inside (.inl (le_trans (by decide) above))),
      if_neg (not_inRange_of_apart (by decide) window inside (.inl (le_trans (by decide) above))),
      if_neg (not_inRange_of_apart (by decide) window inside (.inl (le_trans (by decide) above))),
      virtioIndex_window below inside present]
    simp only [Option.bind_eq_bind, Option.bind_some, found, offset_of_window]
    rfl
  store := by
    intro vm dev offset val found inside
    obtain ⟨present, same⟩ := List.getElem?_eq_some_iff.1 found
    have window := virtio_window below
    have above : 0x10001000 ≤ (virtioBase index).toNat := by
      have here := toNat_virtioBase below
      omega
    rw [Vm.mmioStoreByte, if_neg (toNat_window window inside).2, writeByte,
      if_neg (not_inRange_of_apart (by decide) window inside (.inl (le_trans (by decide) above))),
      if_neg (not_inRange_of_apart (by decide) window inside (.inl (le_trans (by decide) above))),
      if_neg (not_inRange_of_apart (by decide) window inside (.inl (le_trans (by decide) above))),
      virtioIndex_window below inside present]
    dsimp only
    rw [if_pos rfl, offset_of_window, List.modify_eq_set_getElem?, found]
    rfl

end Ports

end MetaVm.Riscv
