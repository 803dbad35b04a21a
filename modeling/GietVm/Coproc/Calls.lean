import GietVm.Kernel.CtxSwitch

/-!
# System calls of the coprocessors

The `_sys_coproc` functions of `sys_handler.c`. There is at most one coprocessor in a cluster,
protected by a lock. A task gets the coprocessor of its own cluster, and the cluster is recorded
in the slot `CTX_COPROC_ID` of its context. The other calls read the slot and drive the
coprocessor of the cluster that it names.

Each call is atomic, and returns the state, the accesses to the registers of the MWR component
and to the locks, in their order, and its result. What the registers contain when they are read
is a parameter of the call.
-/

namespace GietVm.Coproc

open GietVm.Kernel (Mapping srInitValue)

/-- `MODE_MWMR`, `MODE_DMA_IRQ` and `MODE_DMA_NO_IRQ`. -/
def modeMwmr : ℕ := 0
def modeDmaIrq : ℕ := 1
def modeDmaNoIrq : ℕ := 2

/-- The registers of a channel. -/
inductive ChannelReg
  | bufferLsb
  | bufferMsb
  | mwmrLsb
  | mwmrMsb
  | lockLsb
  | lockMsb
  | mode
  | size
  | running
  | status
  deriving DecidableEq, Repr

/-- The states of a channel that the status register reports. -/
inductive Status
  | success
  | errorData
  | errorLock
  | errorDesc
  | busy
  deriving DecidableEq, Repr

/-- The channel reports an error. -/
def Status.Error (s : Status) : Prop := s = .errorData ∨ s = .errorLock ∨ s = .errorDesc

instance (s : Status) : Decidable s.Error := inferInstanceAs (Decidable (_ ∨ _))

/-- A peripheral in the mapping: whether its type is `PERIPH_TYPE_MWR`, its subtype and its
arguments. -/
structure Periph where
  isMwr : Bool
  subtype : ℕ
  arg0 : ℕ
  arg1 : ℕ
  arg2 : ℕ
  arg3 : ℕ

/-- The platform: the fields of a processor identifier, the processors of the tasks, and the
peripherals of the clusters. -/
structure Config (T : Type) where
  yWidth : ℕ
  pWidth : ℕ
  ySize : ℕ
  procid : T → ℕ
  periphs : ℕ → List Periph
  mesh : ∀ t, ((procid t >>> (yWidth + pWidth)) <<< yWidth) +
    ((procid t >>> pWidth) &&& ((1 <<< yWidth) - 1)) ≤ 0xFF

/-- An access to a register of the MWR component of a cluster, or to the lock of a cluster. -/
inductive Event
  | setCoproc (clusterXy index value : ℕ)
  | setChannel (clusterXy channel : ℕ) (reg : ChannelReg) (value : ℕ)
  | getChannel (clusterXy channel : ℕ) (reg : ChannelReg)
  | acquire (clusterId : ℕ)
  | release (clusterId : ℕ)
  deriving DecidableEq, Repr

/-- The cluster of the device that is accessed. -/
def Event.device : Event → Option ℕ
  | .setCoproc clusterXy _ _ | .setChannel clusterXy _ _ _ | .getChannel clusterXy _ _ =>
    some clusterXy
  | .acquire _ | .release _ => none

/-- The kernel arrays of the coprocessors, the locks, the slots of the tasks, whether they are
not killed, and whether they have got a coprocessor that they have not released. -/
structure State (T : Type) where
  lock : ℕ → Bool
  coprocType : ℕ → ℕ
  coprocInfo : ℕ → ℕ
  coprocMode : ℕ → ℕ
  slot : T → ℕ
  live : T → Bool
  owns : T → Bool

variable {T : Type} [DecidableEq T]

namespace Config

variable (c : Config T) (t : T)

/-- The coordinates of the cluster of a task. -/
def x : ℕ := c.procid t >>> (c.yWidth + c.pWidth)

def y : ℕ := (c.procid t >>> c.pWidth) &&& ((1 <<< c.yWidth) - 1)

/-- The cluster of a task, as `_sys_coproc_alloc` records it. -/
def clusterXy : ℕ := (c.x t <<< c.yWidth) + c.y t

/-- The index of the cluster of a task, as `_sys_coproc_alloc` computes it. -/
def ownClusterId : ℕ := c.x t * c.ySize + c.y t

/-- The index of a recorded cluster. -/
def clusterId (clusterXy : ℕ) : ℕ :=
  (clusterXy >>> c.yWidth) * c.ySize + (clusterXy &&& ((1 <<< c.yWidth) - 1))

end Config

/-- The first coprocessor of a type in the list of the peripherals of a cluster. -/
def findCoproc (coprocType : ℕ) (periphs : List Periph) : Option Periph :=
  periphs.find? fun p => p.isMwr && p.subtype == coprocType

/-- The characteristics of a coprocessor. -/
def infoOf (p : Periph) : ℕ :=
  (p.arg0 &&& 0xFF) ||| (p.arg1 &&& 0xFF) <<< 8 ||| (p.arg2 &&& 0xFF) <<< 16 |||
    (p.arg3 &&& 0xFF) <<< 24

/-- The number of channels, from the characteristics. -/
def channels (info : ℕ) : ℕ := ((info >>> 8) &&& 0xFF) + (info &&& 0xFF)

/-- The outcome of a call. -/
structure Outcome (T : Type) where
  state : State T
  events : List Event
  result : ℤ

section Calls

variable (c : Config T) (t : T)

/-- `_sys_coproc_alloc`. -/
def sysCoprocAlloc (coprocType : ℕ) (s : State T) : Outcome T :=
  let clusterId := c.ownClusterId t
  match findCoproc coprocType (c.periphs clusterId) with
  | some found =>
    { state :=
        { s with
          lock := Function.update s.lock clusterId true
          coprocType := Function.update s.coprocType clusterId coprocType
          coprocInfo := Function.update s.coprocInfo clusterId (infoOf found)
          slot := Function.update s.slot t (c.clusterXy t)
          owns := Function.update s.owns t true }
      events := [.acquire clusterId]
      result := 0 }
  | none => { state := s, events := [], result := -1 }

/-- The test of the slot with which the other calls begin. -/
def withCoproc (s : State T) (body : ℕ → Outcome T) : Outcome T :=
  let clusterXy := s.slot t
  if clusterXy > 0xFF then { state := s, events := [], result := -1 } else body clusterXy

/-- `_sys_coproc_release`. -/
def sysCoprocRelease (coprocRegIndex : ℕ) (s : State T) : Outcome T :=
  withCoproc t s fun clusterXy =>
    let clusterId := c.clusterId clusterXy
    { state :=
        { s with
          lock := Function.update s.lock clusterId false
          slot := Function.update s.slot t 0xFFFFFFFF
          owns := Function.update s.owns t false }
      events := [.setCoproc clusterXy coprocRegIndex 0] ++
        (List.range (channels (s.coprocInfo clusterId))).map
          (fun channel => .setChannel clusterXy channel .running 0) ++ [.release clusterId]
      result := 0 }

/-- The descriptor of a channel, with the physical addresses of its buffers. -/
structure ChannelDesc where
  mode : ℕ
  size : ℕ
  bufferPaddr : ℕ
  mwmrPaddr : ℕ
  lockPaddr : ℕ

/-- `_sys_coproc_channel_init`. -/
def sysCoprocChannelInit (channel : ℕ) (desc : ChannelDesc) (s : State T) : Outcome T :=
  withCoproc t s fun clusterXy =>
    let mode := desc.mode
    if mode ≠ modeMwmr ∧ mode ≠ modeDmaIrq ∧ mode ≠ modeDmaNoIrq then
      { state := s, events := [], result := -1 }
    else
      let set := Event.setChannel clusterXy channel
      { state := s
        events := [set .mode mode, set .size desc.size,
            set .bufferLsb (desc.bufferPaddr % 2 ^ 32), set .bufferMsb (desc.bufferPaddr / 2 ^ 32)] ++
          if mode = modeMwmr then
            [set .mwmrLsb (desc.mwmrPaddr % 2 ^ 32), set .mwmrMsb (desc.mwmrPaddr / 2 ^ 32),
              set .lockLsb (desc.lockPaddr % 2 ^ 32), set .lockMsb (desc.lockPaddr / 2 ^ 32)]
          else []
        result := 0 }

/-- The loop of `_sys_coproc_run` that reads the modes of the channels: the registers that it
reads, and the common mode, if there is one. -/
def readModes (clusterXy : ℕ) (modes : ℕ → ℕ) : ℕ → ℕ → ℕ → List Event × Option ℕ
  | 0, _, mode => ([], some mode)
  | left + 1, channel, mode =>
    let event := Event.getChannel clusterXy channel .mode
    let temp := modes channel
    if mode = 0xFFFFFFFF then
      let (events, result) := readModes clusterXy modes left (channel + 1) temp
      (event :: events, result)
    else if temp ≠ mode then ([event], none)
    else
      let (events, result) := readModes clusterXy modes left (channel + 1) mode
      (event :: events, result)

/-- `_sys_coproc_run`. In `MODE_DMA_IRQ` the task is descheduled, and the result is the error
word that it finds when it goes on. -/
def sysCoprocRun (coprocRegIndex : ℕ) (modes : ℕ → ℕ) (error : ℕ) (s : State T) : Outcome T :=
  withCoproc t s fun clusterXy =>
    let clusterId := c.clusterId clusterXy
    let nb := channels (s.coprocInfo clusterId)
    let (reads, common) := readModes clusterXy modes nb 0 0xFFFFFFFF
    match common with
    | none => { state := s, events := reads, result := -1 }
    | some mode =>
      { state := { s with coprocMode := Function.update s.coprocMode clusterId mode }
        events := reads ++
          (List.range nb).map (fun channel => .setChannel clusterXy channel .running 1) ++
            [.setCoproc clusterXy coprocRegIndex 1]
        result := if mode = modeMwmr ∨ mode = modeDmaNoIrq then 0 else error }

/-- The accesses of `_sys_coproc_completed` to a channel: the status is read until the channel
is not busy. -/
def pollChannel (clusterXy channel reads : ℕ) : List Event :=
  List.replicate (reads + 1) (.getChannel clusterXy channel .status) ++
    [.setChannel clusterXy channel .running 0]

/-- `_sys_coproc_completed`. A channel is busy for a number of reads, and then in its last
state. -/
def sysCoprocCompleted (reads : ℕ → ℕ) (status : ℕ → Status) (s : State T) : Outcome T :=
  withCoproc t s fun clusterXy =>
    let clusterId := c.clusterId clusterXy
    if s.coprocMode clusterId = modeDmaNoIrq then
      let all := List.range (channels (s.coprocInfo clusterId))
      { state := s
        events := all.flatMap fun channel => pollChannel clusterXy channel (reads channel)
        result := if ∃ channel ∈ all, (status channel).Error then 1 else 0 }
    else { state := s, events := [], result := 1 }

end Calls

/-- The system calls of a task. -/
inductive Call
  | alloc (coprocType : ℕ)
  | release (coprocRegIndex : ℕ)
  | channelInit (channel : ℕ) (desc : ChannelDesc)
  | run (coprocRegIndex : ℕ) (modes : ℕ → ℕ) (error : ℕ)
  | completed (reads : ℕ → ℕ) (status : ℕ → Status)

/-- The outcome of a call of a task. -/
def call (c : Config T) (t : T) : Call → State T → Outcome T
  | .alloc coprocType, s => sysCoprocAlloc c t coprocType s
  | .release coprocRegIndex, s => sysCoprocRelease c t coprocRegIndex s
  | .channelInit channel desc, s => sysCoprocChannelInit t channel desc s
  | .run coprocRegIndex modes error, s => sysCoprocRun c t coprocRegIndex modes error s
  | .completed reads status, s => sysCoprocCompleted c t reads status s

/-- A call is made by a live task. One that waits for a lock goes on when the lock is free. -/
def Enabled (c : Config T) (s : State T) (t : T) : Call → Prop
  | .alloc coprocType => s.live t = true ∧
    ((findCoproc coprocType (c.periphs (c.ownClusterId t))).isSome →
      s.lock (c.ownClusterId t) = false)
  | _ => s.live t = true

/-! ## The boot -/

/-- What `boot_scheduler_init` writes into the context of a task. -/
structure TaskBoot where
  sp : BitVec 32
  entry : BitVec 32
  ptpr : BitVec 32
  ptab : BitVec 32
  ltid : BitVec 32
  gtid : BitVec 32
  trdid : BitVec 32
  vsid : BitVec 32
  norun : BitVec 32

/-- The context of a task after `boot_scheduler_init`, from the content of the memory before. -/
def bootContext (b : TaskBoot) (memory : ℕ → BitVec 32) : ℕ → BitVec 32 :=
  [(33, 0), (34, srInitValue), (29, b.sp), (32, b.entry), (52, b.entry), (39, b.ptpr),
    (36, b.ptab), (37, b.ltid), (49, b.gtid), (48, b.trdid), (38, b.vsid), (50, b.norun), (53, 0),
    (40, 0xFFFFFFFF), (41, 0xFFFFFFFF), (42, 0xFFFFFFFF), (43, 0xFFFFFFFF), (44, 0xFFFFFFFF),
    (45, 0xFFFFFFFF), (46, 0xFFFFFFFF), (47, 0xFFFFFFFF)].foldl
    (fun words (write : ℕ × BitVec 32) => Function.update words write.1 write.2) memory

/-- `CTX_COPROC_ID`. -/
def ctxCoprocId : ℕ := 51

/-- The states after the boot: all locks are free, and the slots are those of the contexts. -/
structure Initial (boot : T → TaskBoot) (memory : T → ℕ → BitVec 32) (s : State T) : Prop where
  lock : ∀ clusterId, s.lock clusterId = false
  owns : ∀ t, s.owns t = false
  slot : ∀ t, s.slot t = (bootContext (boot t) (memory t) ctxCoprocId).toNat

/-- The states reached by calls in any order, with KILL and EXEC signals between them. The
handling of the signals changes no slot and no lock of a coprocessor. -/
inductive Run (c : Config T) (boot : T → TaskBoot) (memory : T → ℕ → BitVec 32) : State T → Prop
  | init {s : State T} (h : Initial boot memory s) : Run c boot memory s
  | call {s : State T} (h : Run c boot memory s) (t : T) (k : Call) (henabled : Enabled c s t k) :
      Run c boot memory (call c t k s).state
  | signal {s : State T} (h : Run c boot memory s) (t : T) (live : Bool) :
      Run c boot memory { s with live := Function.update s.live t live }

end GietVm.Coproc
