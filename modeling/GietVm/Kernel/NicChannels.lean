import GietVm.Kernel.ChannelOwners
import GietVm.Library.Bits
import Mathlib.Tactic.SplitIfs

/-!
# The descriptors of the NIC channels

`_sys_nic_alloc` gives a task a channel of the NIC and a channel of the CMA component, and programs
the CMA with the address of the two buffer descriptors of the NIC channel. `_sys_nic_start` makes
`_nic_channel_start` write these descriptors in the registers of the NIC channel. The registers of
a channel are in its window of 32 Kbytes, but the addresses in the descriptors are computed from the
base of the NIC only: those of every channel are in the window of channel 0.

The registers of the NIC are words at physical addresses. When the MMU is active a peripheral is
accessed by its virtual address, which the page tables map.
-/

namespace GietVm.Kernel.Nic

open Library

/-! ## The registers -/

/-- The platform: the configuration of the channels, the constants of `hard_config.h`, whether the
MMU is active, and the map of the virtual addresses of the peripherals. -/
structure Platform (T : Type) where
  config : Config T
  segNicBase : ℕ
  xIo : ℕ
  yIo : ℕ
  yWidth : ℕ
  mac4 : ℕ
  mac2 : ℕ
  mmuActive : Bool
  ioMap : ℕ → ℕ

/-- The registers of the CMA channels that the handlers write. -/
inductive CmaRegister
  | run
  | srcDesc
  | dstDesc
  | srcNbufs
  | dstNbufs
  | bufSize
  | period
  | srcExt
  | dstExt
  deriving DecidableEq

/-- The allocators and the contexts, the registers of the NIC, and those of the CMA channels. -/
structure Device (T : Type) where
  alloc : State T
  nic : ℕ → ℕ
  cma : ℕ → CmaRegister → ℕ

section Registers

variable {T : Type} (p : Platform T)

/-- The extension of the physical addresses of the cluster of the peripherals. -/
def Platform.extend : ℕ := p.xIo <<< p.yWidth + p.yIo

/-- The physical address of an access to a peripheral, in `_io_extended_write` and
`_io_extended_read`. -/
def Platform.ioPaddr (vaddr : ℕ) : ℕ :=
  if p.mmuActive then p.ioMap vaddr else vaddr + p.extend <<< 32

/-- The address of a register of a channel, as in `_nic_set_channel_register`. -/
def Platform.channelVaddr (channel index : ℕ) : ℕ :=
  (p.segNicBase + 4 * (0x2000 * channel + 0x1000 + index)) % 2 ^ 32

/-- The address of a global register, as in `_nic_set_global_register`. -/
def Platform.globalVaddr (index : ℕ) : ℕ := (p.segNicBase + 4 * (0x2000 * 8 + index)) % 2 ^ 32

/-- `_nic_set_channel_register` -/
def nicSetChannelRegister (channel index value : ℕ) (nic : ℕ → ℕ) : ℕ → ℕ :=
  Function.update nic (p.ioPaddr (p.channelVaddr channel index)) value

/-- `_nic_get_global_register` -/
def nicGetGlobalRegister (index : ℕ) (nic : ℕ → ℕ) : ℕ := nic (p.ioPaddr (p.globalVaddr index))

/-- `_nic_set_global_register` -/
def nicSetGlobalRegister (index value : ℕ) (nic : ℕ → ℕ) : ℕ → ℕ :=
  Function.update nic (p.ioPaddr (p.globalVaddr index)) value

/-! ## `_nic_channel_start` -/

/-- The low word of a descriptor. -/
def descLo (stsAddr bufAddr : ℕ) : ℕ := add32 (stsAddr >>> 6) (shl32 (bufAddr &&& 0xFC0) 20)

/-- The high word of a descriptor. -/
def descHi (bufAddr extend : ℕ) : ℕ :=
  add32 ((bufAddr &&& 0xFFFFF000) >>> 12) (shl32 (extend &&& 0xFFF) 20)

/-- One of the branches of `_nic_channel_start`: the first descriptor register of the direction, its
run register, and the addresses of its buffers and statuses. The four descriptor registers follow
each other: low and high word of the first descriptor, low and high word of the second one. -/
def startDirection (channel first run buf0 buf1 sts0 sts1 : ℕ) (nic : ℕ → ℕ) : ℕ → ℕ :=
  let nic := nicSetChannelRegister p channel first (descLo sts0 buf0) nic
  let nic := nicSetChannelRegister p channel (first + 2) (descLo sts1 buf1) nic
  let nic := nicSetChannelRegister p channel (first + 1) (descHi buf0 p.extend) nic
  let nic := nicSetChannelRegister p channel (first + 3) (descHi buf1 p.extend) nic
  nicSetChannelRegister p channel run 1 nic

/-- The first descriptor register of a direction: `NIC_RX_DESC_LO_0` or `NIC_TX_DESC_LO_0`. -/
def firstRegister (isRx : Bool) : ℕ := if isRx then 64 else 68

/-- The run register of a direction: `NIC_RX_RUN` or `NIC_TX_RUN`. -/
def runRegister (isRx : Bool) : ℕ := if isRx then 74 else 75

/-- The address of a buffer of a direction. -/
def Platform.bufAddr (isRx : Bool) (second : Bool) : ℕ :=
  match isRx, second with
  | true, false => p.segNicBase
  | true, true => add32 p.segNicBase 0x1000
  | false, false => add32 p.segNicBase 0x2000
  | false, true => add32 p.segNicBase 0x3000

/-- The address of the status of a buffer of a direction. -/
def Platform.stsAddr (isRx : Bool) (second : Bool) : ℕ :=
  match isRx, second with
  | true, false => add32 p.segNicBase 0x4000
  | true, true => add32 p.segNicBase 0x4040
  | false, false => add32 p.segNicBase 0x4080
  | false, true => add32 p.segNicBase 0x40C0

/-- `_nic_channel_start`. The global registers are `NIC_G_MAC_4`, `NIC_G_MAC_2` and `NIC_G_VIS`. -/
def nicChannelStart (channel : ℕ) (isRx : Bool) (nic : ℕ → ℕ) : ℕ → ℕ :=
  let vis := nicGetGlobalRegister p 0 nic ||| shl32 1 channel
  let nic := nicSetGlobalRegister p (8 + channel) p.mac4 nic
  let nic := nicSetGlobalRegister p (16 + channel) p.mac2 nic
  let nic := nicSetGlobalRegister p 0 vis nic
  startDirection p channel (firstRegister isRx) (runRegister isRx) (p.bufAddr isRx false)
    (p.bufAddr isRx true) (p.stsAddr isRx false) (p.stsAddr isRx true) nic

end Registers

/-! ## The handlers -/

section Handlers

variable {T : Type} [DecidableEq T] (p : Platform T) (t : T)

/-- `_cma_set_register` -/
def Device.cmaSetRegister {T : Type} (s : Device T) (channel : ℕ) (index : CmaRegister)
    (value : ℕ) : Device T :=
  { s with cma := Function.update s.cma channel (Function.update (s.cma channel) index value) }

/-- The address of the NIC chbuf of a channel, in `_sys_nic_alloc`. -/
def Platform.nicChbufPbase {T : Type} (p : Platform T) (channel : ℕ) (isRx : Bool) : ℕ :=
  p.extend <<< 32 |||
    (p.segNicBase + channel * 2 ^ 15 + (if isRx then 0x4100 else 0x4110)) % 2 ^ 32

/-- The last step of `_sys_nic_alloc`: the registers of the CMA channel. -/
def programCma {T : Type} (isRx : Bool) (cmaChannel nicPbase kerPbase count : ℕ) (s : Device T) :
    Device T :=
  if isRx then
    (((((s.cmaSetRegister cmaChannel .srcDesc (nicPbase % 2 ^ 32)).cmaSetRegister cmaChannel .srcExt
      (nicPbase / 2 ^ 32)).cmaSetRegister cmaChannel .srcNbufs 2).cmaSetRegister cmaChannel .dstDesc
      (kerPbase % 2 ^ 32)).cmaSetRegister cmaChannel .dstExt (kerPbase / 2 ^ 32)).cmaSetRegister
      cmaChannel .dstNbufs count
  else
    (((((s.cmaSetRegister cmaChannel .srcDesc (kerPbase % 2 ^ 32)).cmaSetRegister cmaChannel .srcExt
      (kerPbase / 2 ^ 32)).cmaSetRegister cmaChannel .srcNbufs count).cmaSetRegister cmaChannel
      .dstDesc (nicPbase % 2 ^ 32)).cmaSetRegister cmaChannel .dstExt
      (nicPbase / 2 ^ 32)).cmaSetRegister cmaChannel .dstNbufs 2

/-- `_sys_nic_alloc`, with the physical address of the kernel chbuf of the channel. -/
def nicAlloc (isRx : Bool) (xmax ymax : ℕ) (filled : Bool) (kerPbase : ℕ) (s : Device T) :
    Device T × ℤ :=
  let nicChannel := s.alloc.nicAllocator isRx
  let cmaChannel := firstFree s.alloc.cmaChannel p.config.nbCma 0
  let result := sysNicAlloc p.config t isRx xmax ymax filled s.alloc
  let s := { s with alloc := result.1 }
  if result.2 = -1 then (s, -1)
  else (programCma isRx cmaChannel (p.nicChbufPbase nicChannel isRx) kerPbase (mul32 xmax ymax) s,
    result.2)

/-- `_sys_nic_start` -/
def nicStart (isRx : Bool) (channel : ℕ) (s : Device T) : Device T × ℤ :=
  let nicChannel := s.alloc.context t (nicSlot isRx)
  let cmaChannel := s.alloc.context t (nicCmaSlot isRx)
  if nicChannel ≠ channel then (s, -1)
  else if p.config.nbCma ≤ cmaChannel then (s, -1)
  else
    let s := ((s.cmaSetRegister cmaChannel .bufSize 4096).cmaSetRegister cmaChannel .period
      0).cmaSetRegister cmaChannel .run 1
    ({ s with nic := nicChannelStart p nicChannel isRx s.nic }, 0)

/-- A channel and a direction, with the CMA channel obtained with it. -/
structure Pair where
  channel : ℕ
  isRx : Bool
  cmaChannel : ℕ
  deriving DecidableEq

/-- Sequences of calls of the two handlers by the tasks, with the pairs that the calls have
allocated and the channels and directions that they have started. -/
inductive Calls : Device T → List Pair → List (ℕ × Bool) → Prop
  | init {s : Device T} (h : Initial p.config s.alloc) : Calls s [] []
  | allocated {s s' : Device T} {pairs : List Pair} {started : List (ℕ × Bool)} {t : T}
      {isRx : Bool} {xmax ymax kerPbase channel : ℕ} {filled : Bool} (h : Calls s pairs started)
      (hcall : nicAlloc p t isRx xmax ymax filled kerPbase s = (s', (channel : ℤ))) :
      Calls s' (⟨channel, isRx, s'.alloc.context t (nicCmaSlot isRx)⟩ :: pairs) started
  | notAllocated {s s' : Device T} {pairs : List Pair} {started : List (ℕ × Bool)} {t : T}
      {isRx : Bool} {xmax ymax kerPbase : ℕ} {filled : Bool} (h : Calls s pairs started)
      (hcall : nicAlloc p t isRx xmax ymax filled kerPbase s = (s', -1)) : Calls s' pairs started
  | started {s s' : Device T} {pairs : List Pair} {started : List (ℕ × Bool)} {t : T}
      {isRx : Bool} {channel : ℕ} (h : Calls s pairs started)
      (hcall : nicStart p t isRx channel s = (s', 0)) : Calls s' pairs ((channel, isRx) :: started)
  | notStarted {s s' : Device T} {pairs : List Pair} {started : List (ℕ × Bool)} {t : T}
      {isRx : Bool} {channel : ℕ} (h : Calls s pairs started)
      (hcall : nicStart p t isRx channel s = (s', -1)) : Calls s' pairs started

end Handlers

/-! ## The format of the descriptors -/

/-- The address of the buffer: the 6 high bits of the low word and the 20 low bits of the high word
are its bits 31 to 6, and the 12 high bits of the high word are its extension. -/
def bufferOf (lo hi : ℕ) : ℕ := hi / 2 ^ 20 * 2 ^ 32 + (hi % 2 ^ 20 * 2 ^ 6 + lo / 2 ^ 26) * 2 ^ 6

/-- The address of the status: the 26 low bits of the low word are its bits 31 to 6, and it has the
extension of the buffer. -/
def statusOf (lo hi : ℕ) : ℕ := hi / 2 ^ 20 * 2 ^ 32 + lo % 2 ^ 26 * 2 ^ 6

section Format

variable {sts buf extend : ℕ}

/-- The fields of the two words. -/
theorem descLo_eq (hsts : sts < 2 ^ 32) :
    descLo sts buf = sts / 2 ^ 6 + buf / 2 ^ 6 % 2 ^ 6 * 2 ^ 26 := by
  have hmask : buf &&& 0xFC0 = buf / 2 ^ 6 % 2 ^ 6 * 2 ^ 6 := by
    have hlow : buf &&& 0xFC0 = buf % 2 ^ 12 &&& 0xFC0 := by
      rw [← Nat.and_two_pow_sub_one_eq_mod, Nat.and_assoc]
      rfl
    have hlt : buf % 2 ^ 12 < 2 ^ (6 + 6) := Nat.mod_lt _ (by decide)
    rw [hlow]
    refine (and_high_eq (i := 6) (n := 6) hlt).trans ?_
    omega
  rw [descLo, hmask, shl32, add32, Nat.shiftRight_eq_div_pow]
  omega

theorem descHi_eq (hbuf : buf < 2 ^ 32) (hextend : extend < 2 ^ 12) :
    descHi buf extend = buf / 2 ^ 12 + extend * 2 ^ 20 := by
  have hmask : buf &&& 0xFFFFF000 = buf / 2 ^ 12 * 2 ^ 12 :=
    and_high_eq (i := 12) (n := 20) hbuf
  have hext : extend &&& 0xFFF = extend := by
    refine (Nat.and_two_pow_sub_one_eq_mod extend 12).trans ?_
    exact Nat.mod_eq_of_lt hextend
  rw [descHi, hmask, hext, shl32, add32, Nat.shiftRight_eq_div_pow]
  omega

/-- A descriptor gives back the addresses from which it is built. -/
theorem bufferOf_desc (hsts : sts < 2 ^ 32) (hbuf : buf < 2 ^ 32) (haligned : buf % 64 = 0)
    (hextend : extend < 2 ^ 12) :
    bufferOf (descLo sts buf) (descHi buf extend) = extend * 2 ^ 32 + buf := by
  rw [bufferOf, descLo_eq hsts, descHi_eq hbuf hextend]
  omega

theorem statusOf_desc (hsts : sts < 2 ^ 32) (haligned : sts % 64 = 0) (hbuf : buf < 2 ^ 32)
    (hextend : extend < 2 ^ 12) :
    statusOf (descLo sts buf) (descHi buf extend) = extend * 2 ^ 32 + sts := by
  rw [statusOf, descLo_eq hsts, descHi_eq hbuf hextend]
  omega

end Format

/-! ## The registers of different channels -/

/-- The base of the NIC is at a multiple of 32 Kbytes of the cluster of the peripherals, whose
extension fits in a descriptor. There are at most 8 channels, and the virtual addresses of the
peripherals are those of their cluster. -/
structure Platform.Ok {T : Type} (p : Platform T) : Prop where
  base_lt : p.segNicBase < 2 ^ 32
  base_aligned : p.segNicBase % 2 ^ 15 = 0
  extend_lt : p.extend < 2 ^ 12
  channels_le : p.config.nbNic ≤ 8
  ioMap_eq : ∀ vaddr < 2 ^ 32, p.ioMap vaddr = p.extend * 2 ^ 32 + vaddr

section Addresses

variable {T : Type} {p : Platform T} {channel channel' index index' value : ℕ} {nic : ℕ → ℕ}

theorem Platform.Ok.ioPaddr_eq (hp : p.Ok) {vaddr : ℕ} (hvaddr : vaddr < 2 ^ 32) :
    p.ioPaddr vaddr = p.extend * 2 ^ 32 + vaddr := by
  rw [Platform.ioPaddr]
  split_ifs
  · exact hp.ioMap_eq vaddr hvaddr
  · rw [Nat.shiftLeft_eq, Nat.add_comm]

/-- The physical address of a register of a channel. -/
def Platform.channelPaddr (p : Platform T) (channel index : ℕ) : ℕ :=
  p.extend * 2 ^ 32 + p.channelVaddr channel index

theorem Platform.Ok.channel_ioPaddr (hp : p.Ok) (channel index : ℕ) :
    p.ioPaddr (p.channelVaddr channel index) = p.channelPaddr channel index :=
  hp.ioPaddr_eq (Nat.mod_lt _ (by decide))

/-- Different registers of channels have different addresses. -/
theorem channelPaddr_inj (hchannel : channel < 8) (hchannel' : channel' < 8) (hindex : index < 4096)
    (hindex' : index' < 4096) (h : p.channelPaddr channel index = p.channelPaddr channel' index') :
    channel = channel' ∧ index = index' := by
  have hvaddr : p.channelVaddr channel index = p.channelVaddr channel' index' :=
    Nat.add_left_cancel h
  unfold Platform.channelVaddr at hvaddr
  omega

/-- A global register has not the address of a register of a channel. -/
theorem globalPaddr_ne (hp : p.Ok) (hindex : index < 4096) (hindex' : index' < 4096) :
    p.channelPaddr channel index ≠ p.ioPaddr (p.globalVaddr index') := by
  have hlt : p.globalVaddr index' < 2 ^ 32 := Nat.mod_lt _ (by decide)
  rw [hp.ioPaddr_eq hlt, Platform.channelPaddr]
  intro heq
  have hvaddr : p.channelVaddr channel index = p.globalVaddr index' := Nat.add_left_cancel heq
  unfold Platform.channelVaddr Platform.globalVaddr at hvaddr
  omega

/-- A register of a channel after a write to one. -/
theorem nicSetChannelRegister_apply (hp : p.Ok) (hchannel : channel < 8) (hchannel' : channel' < 8)
    (hindex : index < 4096) (hindex' : index' < 4096) :
    nicSetChannelRegister p channel index value nic (p.channelPaddr channel' index') =
      if channel' = channel ∧ index' = index then value
      else nic (p.channelPaddr channel' index') := by
  rw [nicSetChannelRegister, hp.channel_ioPaddr, Function.update_apply]
  congr 1
  rw [eq_iff_iff]
  constructor
  · intro heq
    exact channelPaddr_inj hchannel' hchannel hindex' hindex heq
  · rintro ⟨rfl, rfl⟩
    rfl

/-- The registers of the channels do not change when a global register is written. -/
theorem nicSetGlobalRegister_apply (hp : p.Ok) (hindex : index < 4096) (hindex' : index' < 4096) :
    nicSetGlobalRegister p index' value nic (p.channelPaddr channel index) =
      nic (p.channelPaddr channel index) :=
  Function.update_of_ne (globalPaddr_ne hp hindex hindex') _ _

/-- The words of the two descriptors of a direction, in the order of their registers. -/
def Platform.descWords (p : Platform T) (isRx : Bool) (i : ℕ) : ℕ :=
  if i = 0 then descLo (p.stsAddr isRx false) (p.bufAddr isRx false)
  else if i = 1 then descHi (p.bufAddr isRx false) p.extend
  else if i = 2 then descLo (p.stsAddr isRx true) (p.bufAddr isRx true)
  else descHi (p.bufAddr isRx true) p.extend

theorem Platform.descWords_eq (p : Platform T) (isRx : Bool) :
    p.descWords isRx 0 = descLo (p.stsAddr isRx false) (p.bufAddr isRx false) ∧
      p.descWords isRx 1 = descHi (p.bufAddr isRx false) p.extend ∧
      p.descWords isRx 2 = descLo (p.stsAddr isRx true) (p.bufAddr isRx true) ∧
      p.descWords isRx 3 = descHi (p.bufAddr isRx true) p.extend := by
  unfold Platform.descWords
  refine ⟨?_, ?_, ?_, ?_⟩
  · rw [if_pos rfl]
  · rw [if_neg (by decide), if_pos rfl]
  · rw [if_neg (by decide), if_neg (by decide), if_pos rfl]
  · rw [if_neg (by decide), if_neg (by decide), if_neg (by decide)]

/-- A channel and a direction have their descriptors in the NIC. -/
def Stored (p : Platform T) (nic : ℕ → ℕ) (channel : ℕ) (isRx : Bool) : Prop :=
  ∀ i < 4, nic (p.channelPaddr channel (firstRegister isRx + i)) = p.descWords isRx i

/-- The descriptor registers after `_nic_channel_start`. -/
theorem nicChannelStart_apply (hp : p.Ok) {isRx isRx' : Bool} (hchannel : channel < 8)
    (hchannel' : channel' < 8) {i : ℕ} (hi : i < 4) :
    nicChannelStart p channel isRx nic (p.channelPaddr channel' (firstRegister isRx' + i)) =
      if channel' = channel ∧ isRx' = isRx then p.descWords isRx i
      else nic (p.channelPaddr channel' (firstRegister isRx' + i)) := by
  have hfirst : ∀ d, firstRegister d ≤ 68 := by decide
  have hrun : ∀ d, runRegister d < 4096 := by decide
  have hd := hfirst isRx
  have hd' := hfirst isRx'
  have hindex' : firstRegister isRx' + i < 4096 := by omega
  have hglobals : ∀ vis : ℕ, nicSetGlobalRegister p 0 vis (nicSetGlobalRegister p (16 + channel)
      p.mac2 (nicSetGlobalRegister p (8 + channel) p.mac4 nic))
        (p.channelPaddr channel' (firstRegister isRx' + i)) =
      nic (p.channelPaddr channel' (firstRegister isRx' + i)) := by
    intro vis
    rw [nicSetGlobalRegister_apply hp hindex' (by decide),
      nicSetGlobalRegister_apply hp hindex' (by omega),
      nicSetGlobalRegister_apply hp hindex' (by omega)]
  rw [nicChannelStart, startDirection,
    nicSetChannelRegister_apply hp hchannel hchannel' (hrun isRx) hindex',
    nicSetChannelRegister_apply hp hchannel hchannel' (by omega) hindex',
    nicSetChannelRegister_apply hp hchannel hchannel' (by omega) hindex',
    nicSetChannelRegister_apply hp hchannel hchannel' (by omega) hindex',
    nicSetChannelRegister_apply hp hchannel hchannel' (by omega) hindex', hglobals]
  by_cases hsame : channel' = channel
  · simp only [hsame, true_and]
    have hcases : i = 0 ∨ i = 1 ∨ i = 2 ∨ i = 3 := by omega
    have hwords := p.descWords_eq isRx
    -- the words are not computed
    generalize p.descWords isRx = words at hwords ⊢
    obtain ⟨hzero, hone, htwo, hthree⟩ := hwords
    rw [← hzero, ← hone, ← htwo, ← hthree]
    generalize nic (p.channelPaddr channel (firstRegister isRx' + i)) = other
    cases isRx <;> cases isRx' <;> obtain rfl | rfl | rfl | rfl := hcases <;>
      simp [firstRegister, runRegister]
  · simp only [hsame, false_and, if_false]

end Addresses

/-! ## The calls -/

/-- The address of the NIC chbuf in the registers of a CMA channel: the source for the packets
received, the destination for the packets sent. -/
def Device.programmed {T : Type} (s : Device T) (cmaChannel : ℕ) (isRx : Bool) : ℕ :=
  if isRx then s.cma cmaChannel .srcExt * 2 ^ 32 + s.cma cmaChannel .srcDesc
  else s.cma cmaChannel .dstExt * 2 ^ 32 + s.cma cmaChannel .dstDesc

section Programmed

variable {T : Type} {s : Device T} {cmaChannel cmaChannel' nicPbase kerPbase count value : ℕ}
  {isRx : Bool} {index : CmaRegister}

theorem cmaSetRegister_other (hne : cmaChannel' ≠ cmaChannel) (isRx : Bool) :
    (s.cmaSetRegister cmaChannel index value).programmed cmaChannel' isRx =
      s.programmed cmaChannel' isRx := by
  rw [Device.programmed, Device.programmed, Device.cmaSetRegister]
  dsimp only
  rw [Function.update_of_ne hne]

/-- The registers that start a transfer keep the addresses. -/
theorem cmaSetRegister_control (hindex : index = .bufSize ∨ index = .period ∨ index = .run)
    (isRx : Bool) : (s.cmaSetRegister cmaChannel index value).programmed cmaChannel' isRx =
      s.programmed cmaChannel' isRx := by
  by_cases hne : cmaChannel' = cmaChannel
  · rw [hne, Device.programmed, Device.programmed, Device.cmaSetRegister]
    dsimp only
    rw [Function.update_self]
    obtain rfl | rfl | rfl := hindex <;> rfl
  · exact cmaSetRegister_other hne isRx

theorem programCma_other (hne : cmaChannel' ≠ cmaChannel) (isRx' : Bool) :
    (programCma isRx cmaChannel nicPbase kerPbase count s).programmed cmaChannel' isRx' =
      s.programmed cmaChannel' isRx' := by
  rw [programCma]
  split_ifs
  · simp only [cmaSetRegister_other hne]
  · simp only [cmaSetRegister_other hne]

theorem programCma_self :
    (programCma isRx cmaChannel nicPbase kerPbase count s).programmed cmaChannel isRx =
      nicPbase := by
  have hdiv : nicPbase / 2 ^ 32 * 2 ^ 32 + nicPbase % 2 ^ 32 = nicPbase := Nat.div_add_mod' _ _
  cases isRx with
  | true =>
    simp only [Device.programmed, programCma, Device.cmaSetRegister, Function.update_self, if_true]
    exact hdiv
  | false =>
    simp only [Device.programmed, programCma, Device.cmaSetRegister, Function.update_self,
      Bool.false_eq_true, if_false]
    exact hdiv

@[simp] theorem programCma_alloc :
    (programCma isRx cmaChannel nicPbase kerPbase count s).alloc = s.alloc := by
  rw [programCma]
  split_ifs <;> rfl

@[simp] theorem programCma_nic :
    (programCma isRx cmaChannel nicPbase kerPbase count s).nic = s.nic := by
  rw [programCma]
  split_ifs <;> rfl

end Programmed

section Alloc

variable {T : Type} [DecidableEq T] {c : Config T} {t : T} {s : State T} {isRx : Bool}

/-- `_sys_nic_alloc` obtains both channels, or it fails and changes neither the contexts nor the
table of the CMA channels. -/
theorem sysNicAlloc_cases (c : Config T) (t : T) (s : State T) (isRx filled : Bool)
    (xmax ymax : ℕ) :
    ((sysNicAlloc c t isRx xmax ymax filled s).2 = -1 ∧
      (sysNicAlloc c t isRx xmax ymax filled s).1.context = s.context ∧
      (sysNicAlloc c t isRx xmax ymax filled s).1.cmaChannel = s.cmaChannel) ∨
    (s.nicAllocator isRx < c.nbNic ∧ firstFree s.cmaChannel c.nbCma 0 < c.nbCma ∧
      (sysNicAlloc c t isRx xmax ymax filled s).2 =
        (if filled then (s.nicAllocator isRx : ℤ) else -1) ∧
      NicAllocated c t isRx (firstFree s.cmaChannel c.nbCma 0) s
        (sysNicAlloc c t isRx xmax ymax filled s).1) := by
  have hcontext : (s.addNic isRx 1).context = s.context := by cases isRx <;> rfl
  have htable : (s.addNic isRx 1).cmaChannel = s.cmaChannel := by cases isRx <;> rfl
  by_cases hx : c.xSize < xmax
  · rw [sysNicAlloc, if_pos hx]
    exact Or.inl ⟨rfl, rfl, rfl⟩
  by_cases hy : c.ySize < ymax
  · rw [sysNicAlloc, if_neg hx, if_pos hy]
    exact Or.inl ⟨rfl, rfl, rfl⟩
  by_cases hnic : s.nicAllocator isRx < c.nbNic
  · by_cases hcma : firstFree s.cmaChannel c.nbCma 0 < c.nbCma
    · have hspec := sysNicAlloc_spec (t := t) filled (not_lt.mp hx) (not_lt.mp hy) hnic hcma
      refine Or.inr ⟨hnic, hcma, ?_, hspec⟩
      rw [sysNicAlloc, if_neg hx, if_neg hy]
      dsimp only
      rw [if_neg (not_le.mpr hnic), htable, if_pos hcma]
      split_ifs <;> rfl
    · refine Or.inl ?_
      rw [sysNicAlloc, if_neg hx, if_neg hy]
      dsimp only
      rw [if_neg (not_le.mpr hnic), htable, if_neg hcma]
      exact ⟨rfl, hcontext, htable⟩
  · refine Or.inl ?_
    rw [sysNicAlloc, if_neg hx, if_neg hy]
    dsimp only
    rw [if_pos (not_lt.mp hnic)]
    exact ⟨rfl, hcontext, htable⟩

/-- The contexts with a CMA channel for a direction record a NIC channel for it. -/
def SlotsOk (c : Config T) (s : State T) : Prop :=
  ∀ u isRx, s.context u (nicCmaSlot isRx) < c.nbCma → s.context u (nicSlot isRx) < c.nbNic

theorem SlotsOk.allocated {s' : State T} {cmaChannel : ℕ} (h : SlotsOk c s)
    (hnic : s.nicAllocator isRx < c.nbNic) (hspec : NicAllocated c t isRx cmaChannel s s') :
    SlotsOk c s' := by
  intro u d hd
  rw [hspec.context] at hd ⊢
  have hslots : nicSlot d ≠ nicCmaSlot isRx := by cases d <;> cases isRx <;> decide
  rw [setSlot_of_ne (Or.inr hslots)]
  by_cases hsame : u = t ∧ d = isRx
  · obtain ⟨rfl, rfl⟩ := hsame
    rw [setSlot_self]
    exact hnic
  · have hcma : u ≠ t ∨ nicCmaSlot d ≠ nicCmaSlot isRx := by
      by_cases hut : u = t
      · have hdne : d ≠ isRx := fun hd => hsame ⟨hut, hd⟩
        exact Or.inr (by cases d <;> cases isRx <;> first | decide | exact absurd rfl hdne)
      · exact Or.inl hut
    have hnicSlot : u ≠ t ∨ nicSlot d ≠ nicSlot isRx := by
      obtain hut | hne := hcma
      · exact Or.inl hut
      · refine Or.inr fun heq => hne ?_
        revert heq
        cases d <;> cases isRx <;> decide
    have hother : nicCmaSlot d ≠ nicSlot isRx := by cases d <;> cases isRx <;> decide
    rw [setSlot_of_ne hcma, setSlot_of_ne (Or.inr hother)] at hd
    rw [setSlot_of_ne hnicSlot]
    exact h u d hd

end Alloc

/-! ## What the calls keep -/

section Runs

variable {T : Type} [DecidableEq T] {p : Platform T} {s s' : Device T} {pairs : List Pair}
  {started : List (ℕ × Bool)}

/-- The CMA channels of the pairs are in use and hold the addresses of their descriptors, which the
NIC holds for the channels that are started. -/
structure Programmed (p : Platform T) (s : Device T) (pairs : List Pair)
    (started : List (ℕ × Bool)) : Prop where
  slots : SlotsOk p.config s.alloc
  pairs : ∀ P ∈ pairs, P.channel < p.config.nbNic ∧ s.alloc.cmaChannel P.cmaChannel = true ∧
    s.programmed P.cmaChannel P.isRx = p.channelPaddr P.channel (firstRegister P.isRx)
  started : ∀ q ∈ started, q.1 < p.config.nbNic ∧ Stored p s.nic q.1 q.2

omit [DecidableEq T] in
/-- The address programmed in the CMA is the one of the first descriptor register. -/
theorem nicChbufPbase_eq (p : Platform T) (channel : ℕ) (isRx : Bool) :
    p.nicChbufPbase channel isRx = p.channelPaddr channel (firstRegister isRx) := by
  have hlow : (p.segNicBase + channel * 2 ^ 15 + (if isRx then 0x4100 else 0x4110)) % 2 ^ 32 <
      2 ^ 32 := Nat.mod_lt _ (by decide)
  have hvaddr : (p.segNicBase + channel * 2 ^ 15 + (if isRx then 0x4100 else 0x4110)) % 2 ^ 32 =
      p.channelVaddr channel (firstRegister isRx) := by
    unfold Platform.channelVaddr
    congr 1
    cases isRx
    · change p.segNicBase + channel * 2 ^ 15 + 0x4110 =
        p.segNicBase + 4 * (0x2000 * channel + 0x1000 + 68)
      omega
    · change p.segNicBase + channel * 2 ^ 15 + 0x4100 =
        p.segNicBase + 4 * (0x2000 * channel + 0x1000 + 64)
      omega
  rw [Platform.nicChbufPbase, Nat.shiftLeft_eq, mul_two_pow_or_eq_add _ hlow, hvaddr,
    Platform.channelPaddr]

omit [DecidableEq T] in
theorem Programmed.of_failed (h : Programmed p s pairs started)
    (hcontext : s'.alloc.context = s.alloc.context)
    (htable : s'.alloc.cmaChannel = s.alloc.cmaChannel) (hnic : s'.nic = s.nic)
    (hcma : s'.cma = s.cma) : Programmed p s' pairs started := by
  refine ⟨fun u d => ?_, fun P hP => ?_, fun q hq => ?_⟩
  · rw [hcontext]
    exact h.slots u d
  · rw [htable, Device.programmed, hcma]
    exact h.pairs P hP
  · rw [hnic]
    exact h.started q hq

omit [DecidableEq T] in
/-- The pairs keep their CMA channels when a free one is taken. -/
theorem Programmed.pairs_kept (h : Programmed p s pairs started) {cmaChannel : ℕ}
    (hfree : s.alloc.cmaChannel cmaChannel = false)
    (htable : s'.alloc.cmaChannel = Function.update s.alloc.cmaChannel cmaChannel true)
    (hcma : ∀ c d, c ≠ cmaChannel → s'.programmed c d = s.programmed c d) :
    ∀ P ∈ pairs, P.channel < p.config.nbNic ∧ s'.alloc.cmaChannel P.cmaChannel = true ∧
      s'.programmed P.cmaChannel P.isRx = p.channelPaddr P.channel (firstRegister P.isRx) := by
  intro P hP
  obtain ⟨hchannel, hmark, haddress⟩ := h.pairs P hP
  have hne : P.cmaChannel ≠ cmaChannel := by
    intro heq
    rw [heq, hfree] at hmark
    exact Bool.false_ne_true hmark
  refine ⟨hchannel, ?_, ?_⟩
  · rw [htable, Function.update_of_ne hne]
    exact hmark
  · rw [hcma _ _ hne]
    exact haddress

/-- `_sys_nic_alloc` programs a free CMA channel, or it fails. -/
theorem Programmed.nicAlloc (h : Programmed p s pairs started) (t : T) (isRx filled : Bool)
    (xmax ymax kerPbase : ℕ) :
    ((nicAlloc p t isRx xmax ymax filled kerPbase s).2 = -1 ∧
      Programmed p (nicAlloc p t isRx xmax ymax filled kerPbase s).1 pairs started) ∨
    ∃ channel : ℕ, (nicAlloc p t isRx xmax ymax filled kerPbase s).2 = channel ∧
      Programmed p (nicAlloc p t isRx xmax ymax filled kerPbase s).1
        (⟨channel, isRx, (nicAlloc p t isRx xmax ymax filled kerPbase s).1.alloc.context t
          (nicCmaSlot isRx)⟩ :: pairs) started := by
  obtain ⟨hfail, hcontext, htable⟩ | ⟨hnic, hcma, hresult, hspec⟩ :=
    sysNicAlloc_cases p.config t s.alloc isRx filled xmax ymax
  · left
    rw [Nic.nicAlloc, if_pos hfail]
    exact ⟨rfl, h.of_failed hcontext htable rfl rfl⟩
  · have hfree := firstFree_free hcma
    have hslots := h.slots.allocated hnic hspec
    generalize hcall : sysNicAlloc p.config t isRx xmax ymax filled s.alloc = result
      at hresult hspec hslots
    cases filled with
    | false =>
      have hfail : result.2 = -1 := hresult
      left
      rw [Nic.nicAlloc, hcall, if_pos hfail]
      refine ⟨rfl, hslots, ?_, h.started⟩
      exact h.pairs_kept hfree hspec.cma fun _ _ _ => rfl
    | true =>
      have hvalue : result.2 = (s.alloc.nicAllocator isRx : ℤ) := hresult
      have hok : ¬ result.2 = -1 := by omega
      right
      refine ⟨s.alloc.nicAllocator isRx, ?_⟩
      rw [Nic.nicAlloc, hcall, if_neg hok]
      refine ⟨hvalue, ?_, List.forall_mem_cons.mpr ⟨⟨hnic, ?_, ?_⟩, ?_⟩, fun q hq => ?_⟩
      · rw [programCma_alloc]
        exact hslots
      · rw [programCma_alloc]
        dsimp only
        rw [hspec.context, setSlot_self, hspec.cma, Function.update_self]
      · rw [programCma_alloc]
        dsimp only
        rw [hspec.context, setSlot_self, programCma_self, nicChbufPbase_eq]
      · apply h.pairs_kept hfree
        · rw [programCma_alloc]
          exact hspec.cma
        · intro c d hne
          rw [programCma_other hne]
          rfl
      · rw [programCma_nic]
        exact h.started q hq

omit [DecidableEq T] in
/-- `_sys_nic_start` stores the descriptors of a channel, or it fails. -/
theorem Programmed.nicStart (h : Programmed p s pairs started) (hp : p.Ok) (t : T) (isRx : Bool)
    (channel : ℕ) :
    ((nicStart p t isRx channel s).2 = -1 ∧
      Programmed p (nicStart p t isRx channel s).1 pairs started) ∨
    ((nicStart p t isRx channel s).2 = 0 ∧
      Programmed p (nicStart p t isRx channel s).1 pairs ((channel, isRx) :: started)) := by
  rw [Nic.nicStart]
  dsimp only
  split_ifs with hchannel hcma
  · exact Or.inl ⟨rfl, h⟩
  · exact Or.inl ⟨rfl, h⟩
  · have hlt := h.slots t isRx (not_le.mp hcma)
    have heq := not_not.mp hchannel
    rw [heq] at hlt ⊢
    have hle := hp.channels_le
    have hstored : ∀ channel' < p.config.nbNic, ∀ d,
        (channel' = channel ∧ d = isRx) ∨ Stored p s.nic channel' d →
          Stored p (nicChannelStart p channel isRx s.nic) channel' d := by
      intro channel' hlt' d hd i hi
      rw [nicChannelStart_apply hp (by omega) (by omega) hi]
      split_ifs with hsame
      · rw [hsame.2]
      · exact (hd.resolve_left hsame) i hi
    refine Or.inr ⟨rfl, h.slots, fun P hP => ?_, List.forall_mem_cons.mpr ⟨⟨hlt, ?_⟩, ?_⟩⟩
    · obtain ⟨hP', hmark, haddress⟩ := h.pairs P hP
      refine ⟨hP', hmark, ?_⟩
      rw [← haddress]
      change (((s.cmaSetRegister _ .bufSize 4096).cmaSetRegister _ .period 0).cmaSetRegister _ .run
        1).programmed _ _ = _
      rw [cmaSetRegister_control (by decide), cmaSetRegister_control (by decide),
        cmaSetRegister_control (by decide)]
    · exact hstored channel hlt isRx (Or.inl ⟨rfl, rfl⟩)
    · intro q hq
      obtain ⟨hq', hold⟩ := h.started q hq
      exact ⟨hq', hstored q.1 hq' q.2 (Or.inr hold)⟩

/-- Every sequence of calls. -/
theorem Calls.programmed (hp : p.Ok) (h : Calls p s pairs started) :
    Programmed p s pairs started := by
  induction h with
  | init hinit =>
    refine ⟨fun u d hd => ?_, fun P hP => absurd hP List.not_mem_nil,
      fun q hq => absurd hq List.not_mem_nil⟩
    rw [hinit.context] at hd
    have hnb := p.config.nbCma_lt
    unfold noChannel at hd
    omega
  | @allocated s s' pairs started t isRx xmax ymax kerPbase channel filled h hcall ih =>
    obtain ⟨hfail, -⟩ | ⟨channel', hvalue, hprogrammed⟩ := 
      ih.nicAlloc t isRx filled xmax ymax kerPbase
    · rw [hcall] at hfail
      exact absurd hfail (by dsimp only; omega)
    · rw [hcall] at hvalue hprogrammed
      have hsame : channel = channel' := Int.ofNat.inj hvalue
      rw [hsame]
      exact hprogrammed
  | @notAllocated s s' pairs started t isRx xmax ymax kerPbase filled h hcall ih =>
    obtain ⟨-, hprogrammed⟩ | ⟨channel', hvalue, -⟩ := 
      ih.nicAlloc t isRx filled xmax ymax kerPbase
    · rw [hcall] at hprogrammed
      exact hprogrammed
    · rw [hcall] at hvalue
      exact absurd hvalue (by dsimp only; omega)
  | @started s s' pairs started t isRx channel h hcall ih =>
    obtain ⟨hfail, -⟩ | ⟨-, hprogrammed⟩ := ih.nicStart hp t isRx channel
    · rw [hcall] at hfail
      exact absurd hfail (by dsimp only; omega)
    · rw [hcall] at hprogrammed
      exact hprogrammed
  | @notStarted s s' pairs started t isRx channel h hcall ih =>
    obtain ⟨-, hprogrammed⟩ | ⟨hok, -⟩ := ih.nicStart hp t isRx channel
    · rw [hcall] at hprogrammed
      exact hprogrammed
    · rw [hcall] at hok
      exact absurd hok (by dsimp only; omega)

end Runs

/-! ## The windows of the channels -/

section Windows

variable {T : Type} (p : Platform T) (s : Device T)

/-- The buffers and the statuses of the two descriptors at the address programmed in the CMA for a
pair: their addresses and their lengths. -/
def areas (P : Pair) : List (ℕ × ℕ) :=
  let a := s.programmed P.cmaChannel P.isRx
  [(bufferOf (s.nic a) (s.nic (a + 4)), 4096), (statusOf (s.nic a) (s.nic (a + 4)), 64),
    (bufferOf (s.nic (a + 8)) (s.nic (a + 12)), 4096),
    (statusOf (s.nic (a + 8)) (s.nic (a + 12)), 64)]

/-- The first address of the window of a channel. -/
def Platform.window (channel : ℕ) : ℕ :=
  p.extend * 2 ^ 32 + (p.segNicBase + channel * 2 ^ 15) % 2 ^ 32

/-- The area lies in the window of the channel. -/
def InWindow (channel : ℕ) (area : ℕ × ℕ) : Prop :=
  p.window channel ≤ area.1 ∧ area.1 + area.2 ≤ p.window channel + 2 ^ 15

/-- Two areas have no address in common. -/
def Apart (a b : ℕ × ℕ) : Prop := a.1 + a.2 ≤ b.1 ∨ b.1 + b.2 ≤ a.1

/-- The areas of each pair lie in the window of its channel, and those of pairs with different
channels or directions are apart. -/
def Isolated (pairs : List Pair) : Prop :=
  (∀ P ∈ pairs, ∀ a ∈ areas s P, InWindow p P.channel a) ∧
    ∀ P ∈ pairs, ∀ Q ∈ pairs, (P.channel, P.isRx) ≠ (Q.channel, Q.isRx) →
      ∀ a ∈ areas s P, ∀ b ∈ areas s Q, Apart a b

/-- The pairs that are allocated and started. -/
def active (pairs : List Pair) (started : List (ℕ × Bool)) : List Pair :=
  pairs.filter fun P => (P.channel, P.isRx) ∈ started

/-- The distance of the first buffer of a direction from the base. -/
def bufOffset (isRx : Bool) : ℕ := if isRx then 0 else 0x2000

/-- The distance of the first status of a direction from the base. -/
def stsOffset (isRx : Bool) : ℕ := if isRx then 0x4000 else 0x4080

variable {p s} {P : Pair}

/-- The descriptors follow each other in the window of the channel. -/
theorem channelPaddr_add (hp : p.Ok) (channel : ℕ) (isRx : Bool) {i : ℕ} (hi : i < 4) :
    p.channelPaddr channel (firstRegister isRx) + 4 * i =
      p.channelPaddr channel (firstRegister isRx + i) := by
  have hbase := hp.base_aligned
  have hfirst : firstRegister isRx ≤ 68 := by cases isRx <;> decide
  unfold Platform.channelPaddr Platform.channelVaddr
  omega

/-- The areas of a direction are at the same distances from the base for every channel. -/
theorem areas_eq (hp : p.Ok) (haddress : s.programmed P.cmaChannel P.isRx =
      p.channelPaddr P.channel (firstRegister P.isRx))
    (hstored : Stored p s.nic P.channel P.isRx) : areas s P =
      [(p.window 0 + bufOffset P.isRx, 4096), (p.window 0 + stsOffset P.isRx, 64),
        (p.window 0 + bufOffset P.isRx + 0x1000, 4096),
        (p.window 0 + stsOffset P.isRx + 0x40, 64)] := by
  have hlt := hp.base_lt
  have hbase := hp.base_aligned
  have hwords : ∀ i < 4, s.nic (p.channelPaddr P.channel (firstRegister P.isRx) + 4 * i) =
      p.descWords P.isRx i := by
    intro i hi
    rw [channelPaddr_add hp _ _ hi]
    exact hstored i hi
  have hwindow : p.window 0 = p.extend * 2 ^ 32 + p.segNicBase := by
    rw [Platform.window, Nat.zero_mul, Nat.add_zero, Nat.mod_eq_of_lt hlt]
  have hbuf : ∀ second, p.bufAddr P.isRx second < 2 ^ 32 ∧ p.bufAddr P.isRx second % 64 = 0 ∧
      p.bufAddr P.isRx second =
        p.segNicBase + bufOffset P.isRx + (if second then 0x1000 else 0) := by
    intro second
    cases P.isRx <;> cases second <;>
      simp only [Platform.bufAddr, bufOffset, add32, if_true, Bool.false_eq_true, if_false] <;> omega
  have hsts : ∀ second, p.stsAddr P.isRx second < 2 ^ 32 ∧ p.stsAddr P.isRx second % 64 = 0 ∧
      p.stsAddr P.isRx second =
        p.segNicBase + stsOffset P.isRx + (if second then 0x40 else 0) := by
    intro second
    cases P.isRx <;> cases second <;>
      simp only [Platform.stsAddr, stsOffset, add32, if_true, Bool.false_eq_true, if_false] <;> omega
  obtain ⟨hbuf0, halign0, heq0⟩ := hbuf false
  obtain ⟨hbuf1, halign1, heq1⟩ := hbuf true
  obtain ⟨hsts0, hsalign0, hseq0⟩ := hsts false
  obtain ⟨hsts1, hsalign1, hseq1⟩ := hsts true
  have h0 := hwords 0 (by decide)
  have h1 := hwords 1 (by decide)
  have h2 := hwords 2 (by decide)
  have h3 := hwords 3 (by decide)
  rw [Nat.mul_zero, Nat.add_zero] at h0
  rw [areas, haddress]
  obtain ⟨hzero, hone, htwo, hthree⟩ := p.descWords_eq P.isRx
  rw [h0, h1, h2, h3, hzero, hone, htwo, hthree]
  rw [bufferOf_desc hsts0 hbuf0 halign0 hp.extend_lt, statusOf_desc hsts0 hsalign0 hbuf0 hp.extend_lt,
    bufferOf_desc hsts1 hbuf1 halign1 hp.extend_lt, statusOf_desc hsts1 hsalign1 hbuf1 hp.extend_lt,
    hwindow, heq0, heq1, hseq0, hseq1]
  simp only [if_true, Bool.false_eq_true, if_false, Nat.add_zero, Nat.add_assoc]

/-- The areas of a pair lie in the window of its channel only for channel 0. -/
theorem inWindow_iff (hp : p.Ok) (hchannel : P.channel < 8)
    (hareas : areas s P = [(p.window 0 + bufOffset P.isRx, 4096),
      (p.window 0 + stsOffset P.isRx, 64), (p.window 0 + bufOffset P.isRx + 0x1000, 4096),
      (p.window 0 + stsOffset P.isRx + 0x40, 64)]) :
    (∀ a ∈ areas s P, InWindow p P.channel a) ↔ P.channel = 0 := by
  have hlt := hp.base_lt
  have hbase := hp.base_aligned
  have hbuf : bufOffset P.isRx ≤ 0x2000 := by cases P.isRx <;> decide
  have hsts : stsOffset P.isRx ≤ 0x4080 := by cases P.isRx <;> decide
  rw [hareas]
  simp only [List.forall_mem_cons, InWindow]
  constructor
  · rintro ⟨⟨hlow, hhigh⟩, -⟩
    unfold Platform.window at hlow hhigh
    omega
  · intro hzero
    rw [hzero]
    refine ⟨⟨by omega, by omega⟩, ⟨by omega, by omega⟩, ⟨by omega, by omega⟩,
      ⟨by omega, by omega⟩, fun a ha => absurd ha List.not_mem_nil⟩

/-- The areas of the two directions are apart. -/
theorem directions_apart {base : ℕ} {d d' : Bool} (hne : d ≠ d') :
    ∀ a ∈ [(base + bufOffset d, 4096), (base + stsOffset d, 64),
        (base + bufOffset d + 0x1000, 4096), (base + stsOffset d + 0x40, 64)],
      ∀ b ∈ [(base + bufOffset d', 4096), (base + stsOffset d', 64),
        (base + bufOffset d' + 0x1000, 4096), (base + stsOffset d' + 0x40, 64)], Apart a b := by
  cases d <;> cases d' <;> first
    | exact absurd rfl hne
    | (simp only [List.forall_mem_cons, Apart, bufOffset, stsOffset, if_true, Bool.false_eq_true,
        if_false, List.not_mem_nil, false_imp_iff, implies_true, and_true]
       omega)

end Windows

section Main

variable {T : Type} [DecidableEq T] {p : Platform T} {s : Device T} {pairs : List Pair}
  {started : List (ℕ × Bool)} {P : Pair}

/-- The areas of a pair that is allocated and started. -/
theorem Calls.areas_eq (h : Calls p s pairs started) (hp : p.Ok) (hP : P ∈ active pairs started) :
    P.channel < 8 ∧ areas s P =
      [(p.window 0 + bufOffset P.isRx, 4096), (p.window 0 + stsOffset P.isRx, 64),
        (p.window 0 + bufOffset P.isRx + 0x1000, 4096),
        (p.window 0 + stsOffset P.isRx + 0x40, 64)] := by
  obtain ⟨hmem, hstarted⟩ := List.mem_filter.mp hP
  have hprogrammed := h.programmed hp
  obtain ⟨hchannel, -, haddress⟩ := hprogrammed.pairs P hmem
  obtain ⟨-, hstored⟩ := hprogrammed.started _ (of_decide_eq_true hstarted)
  exact ⟨lt_of_lt_of_le hchannel hp.channels_le, Nic.areas_eq hp haddress hstored⟩

/-- After any sequence of calls the channels are isolated from one another exactly when every pair
that is allocated and started has channel 0. -/
theorem isolated_iff (hp : p.Ok) (h : Calls p s pairs started) :
    Isolated p s (active pairs started) ↔ ∀ P ∈ active pairs started, P.channel = 0 := by
  constructor
  · intro hisolated P hP
    obtain ⟨hchannel, hareas⟩ := h.areas_eq hp hP
    exact (inWindow_iff hp hchannel hareas).mp (hisolated.1 P hP)
  · intro hzero
    refine ⟨fun P hP => ?_, fun P hP Q hQ hne => ?_⟩
    · obtain ⟨hchannel, hareas⟩ := h.areas_eq hp hP
      exact (inWindow_iff hp hchannel hareas).mpr (hzero P hP)
    · obtain ⟨-, hareas⟩ := h.areas_eq hp hP
      obtain ⟨-, hareas'⟩ := h.areas_eq hp hQ
      have hdirections : P.isRx ≠ Q.isRx := by
        intro heq
        apply hne
        rw [hzero P hP, hzero Q hQ, heq]
      rw [hareas, hareas']
      exact directions_apart hdirections

end Main

section Examples

/-- A platform with 2 NIC channels and 4 CMA channels, and one task. -/
def smallPlatform : Platform Unit where
  config := ⟨1, 1, 2, 4, 1, 1, fun _ => 0, one_lt_noChannel, one_lt_noChannel,
    by decide, by decide⟩
  segNicBase := 0xB5000000
  xIo := 0
  yIo := 0
  yWidth := 4
  mac4 := 0xBABEBEEF
  mac2 := 0x1234
  mmuActive := true
  ioMap := fun vaddr => vaddr

/-- The state after the boot. -/
def smallStart : Device Unit where
  alloc := ⟨fun channel => channel = 0, 0, fun _ => false, 0, 0, fun _ _ => noChannel, fun _ => true⟩
  nic := fun _ => 0
  cma := fun _ _ => 0

/-- The state after an allocation in the direction of the packets received. -/
def smallAlloc (s : Device Unit) : Device Unit :=
  (nicAlloc smallPlatform () true 1 1 true 0x80000 s).1

/-- The state after a start of the channel. -/
def smallRun (channel : ℕ) (s : Device Unit) : Device Unit :=
  (nicStart smallPlatform () true channel s).1

theorem smallPlatform_ok : smallPlatform.Ok where
  base_lt := by decide
  base_aligned := by decide
  extend_lt := by decide
  channels_le := by decide
  ioMap_eq := fun vaddr _ => by
    change vaddr = 0 * 2 ^ 32 + vaddr
    rw [Nat.zero_mul, Nat.zero_add]

theorem smallStart_calls : Calls smallPlatform smallStart [] [] :=
  .init ⟨⟨fun _ _ => decide_eq_true_iff, rfl, fun _ _ => rfl, rfl, rfl⟩, fun _ _ => rfl⟩

theorem smallAlloc_start :
    nicAlloc smallPlatform () true 1 1 true 0x80000 smallStart =
      (smallAlloc smallStart, ((0 : ℕ) : ℤ)) := Prod.ext rfl rfl

/-- Channel 0 is allocated and started. -/
theorem isolated_iff_zero :
    Isolated smallPlatform (smallRun 0 (smallAlloc smallStart))
      (active [⟨0, true, 0⟩] [(0, true)]) := by
  have hstart : nicStart smallPlatform () true 0 (smallAlloc smallStart) =
      (smallRun 0 (smallAlloc smallStart), 0) := Prod.ext rfl rfl
  exact (isolated_iff smallPlatform_ok
    ((smallStart_calls.allocated smallAlloc_start).started hstart)).mpr (by decide)

/-- Two channels are allocated in the same direction, and the second one is started. -/
theorem not_isolated_one : ∃ s pairs started, Calls smallPlatform s pairs started ∧
    ¬ Isolated smallPlatform s (active pairs started) := by
  have halloc : nicAlloc smallPlatform () true 1 1 true 0x80000 (smallAlloc smallStart) =
      (smallAlloc (smallAlloc smallStart), ((1 : ℕ) : ℤ)) := Prod.ext rfl rfl
  have hstart : nicStart smallPlatform () true 1 (smallAlloc (smallAlloc smallStart)) =
      (smallRun 1 (smallAlloc (smallAlloc smallStart)), 0) := Prod.ext rfl rfl
  have hcalls := ((smallStart_calls.allocated smallAlloc_start).allocated halloc).started hstart
  refine ⟨_, _, _, hcalls, fun hisolated => ?_⟩
  have hP : (⟨1, true, 1⟩ : Pair) ∈ active [⟨1, true, 1⟩, ⟨0, true, 0⟩] [(1, true)] := by decide
  obtain ⟨hchannel, hareas⟩ := hcalls.areas_eq smallPlatform_ok hP
  have hzero := (inWindow_iff smallPlatform_ok hchannel hareas).mp (hisolated.1 _ hP)
  exact absurd hzero (by decide)

end Examples

end GietVm.Kernel.Nic
