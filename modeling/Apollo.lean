import Apollo.Lib.Bits
import Apollo.Lib.BitStuffing
import Apollo.Lib.Marks
import Apollo.Lib.Transducer
import Apollo.Lib.DelayLine
import Apollo.Lib.Diamond
import Apollo.Lib.Slots
import Apollo.Lib.Clocks
import Apollo.Lib.Attempt
import Apollo.Lib.ByteMemory
import Apollo.Lib.CyclicCheck
import Apollo.Lib.Limbs
import Apollo.Lib.LowBits
import Apollo.Lib.Rounding
import Apollo.Time.Clock
import Apollo.Ring.Mac
import Apollo.Ring.Frame
import Apollo.Ring.FrameLine
import Apollo.Ring.FrameCodec
import Apollo.Ring.Medium
import Apollo.Ring.MediumDelay
import Apollo.Ring.Sched
import Apollo.Ring.SchedMerge
import Apollo.Ring.SchedOrder
import Apollo.Ring.Receiver
import Apollo.Ring.Station
import Apollo.Ring.StationTransmit
import Apollo.Ring.Listen
import Apollo.Ring.ReceiveFrame
import Apollo.Ring.FollowFrame
import Apollo.Ring.Traffic
import Apollo.Ring.StationReceive
import Apollo.Ring.Forwarding
import Apollo.Ring.Acknowledge
import Apollo.Ring.CopiedFrame
import Apollo.Ring.BypassedRing
import Apollo.Ring.FrameCheck
import Apollo.Ring.OutOfBand
import Apollo.Ring.Refusal
import Apollo.Ring.StripOwn
import Apollo.Device.Nesting
import Apollo.Device.Adapter
import Apollo.Device.Exb8200
import Apollo.Device.Exb8200Sense
import Apollo.Device.Exb8200Tape
import Apollo.Device.Exb8200TapeRun
import Apollo.Device.Mailbox
import Apollo.Device.Wd7000
import Apollo.Device.Wd7000Run
import Apollo.Device.I8254
import Apollo.Device.I8254Count
import Apollo.Device.I8254Period
import Apollo.Device.I8254Reload
import Apollo.Device.DmaBlock
import Apollo.Device.Mc146818Run
import Apollo.Device.Mc6840Run
import Apollo.Device.Wd7000Pulse
import Apollo.Device.RingCtlWire
import Apollo.Device.Omti
import Apollo.Device.Mc146818Calendar
import Apollo.Board.Arbiter
import Apollo.Board.Map
import Apollo.Board.DmaBlock
import Apollo.Board.Intr
import Apollo.Board.Keyboard
import Apollo.Board.KeyboardRun
import Apollo.Board.Cascade
import Apollo.Board.Delivery
import Apollo.Board.PollGuard
import Apollo.Board.BlitRun
import Apollo.M68030.Atc
import Apollo.M68030.Walk
import Apollo.M68030.WalkTree
import Apollo.M68030.WalkAtc
import Apollo.M68030.WalkIndirect
import Apollo.M68030.Bus
import Apollo.M68030.Cache
import Apollo.M68030.CacheRead
import Apollo.M68030.CacheCoherent
import Apollo.M68030.Alu
import Apollo.M68030.BeginStep
import Apollo.M68030.Cas2
import Apollo.M68030.OneTranslation
import Apollo.M68030.WalkLimit
import Apollo.M68030.BitField
import Apollo.M68030.CompareBounds
import Apollo.M68030.ExtendedChain
import Apollo.M68030.ModuleCall
import Apollo.M68030.MulDiv
import Apollo.M68030.Pmove
import Apollo.M68030.Shift
import Apollo.M68030.WalkHistory
import Apollo.M68040.Mmu
import Apollo.M68040.TableMemory
import Apollo.M68040.MmuRun
import Apollo.M68040.Cache
import Apollo.M68040.Maintenance
import Apollo.M68882.Bignum
import Apollo.M68882.BignumArith
import Apollo.M68882.BignumDivide
import Apollo.M68882.Compare
import Apollo.M68882.Getexp
import Apollo.M68882.Packed
import Apollo.M68882.PackedConvert
import Apollo.M68882.PackedInput
import Apollo.M68882.PackedOutput
import Apollo.M68882.RealMemory
import Apollo.M68882.Remainder
import Apollo.M68882.RoundTrip
import Apollo.Image.TapMedium
