import ChipEight.Main
import ChipEight.Proofs.HostInvariant
import ChipEight.Proofs.Faults
import ChipEight.Proofs.RunCycles
import ChipEight.Proofs.CallStack
import ChipEight.Proofs.Congruence
import ChipEight.Proofs.Trace
import ChipEight.Proofs.FaultReport
import ChipEight.Proofs.UnreadMemory
import ChipEight.Proofs.Devices
import ChipEight.Proofs.TimerRate
import ChipEight.Proofs.Noninterference
import ChipEight.Proofs.WriteSets
import ChipEight.Proofs.MoreTicks
import ChipEight.Proofs.TimerHistory
import ChipEight.Proofs.RandomStream
import ChipEight.Proofs.Alignment
import ChipEight.Proofs.Drawing
import ChipEight.Proofs.CommandLine.Readback
import ChipEight.Proofs.CommandLine.Observation
import ChipEight.Proofs.CommandLine.FailureOrder
import ChipEight.Proofs.ControlFlow
import ChipEight.Proofs.Arithmetic
import ChipEight.Proofs.MemoryTransfer
import ChipEight.Proofs.Overlay
import ChipEight.Proofs.KeyWait
import ChipEight.Proofs.LastWrite
import ChipEight.Proofs.InitialImage
import ChipEight.Proofs.Picture
import ChipEight.Proofs.Rotation
import ChipEight.Proofs.LastKeyCall
import ChipEight.Proofs.FieldByField
import ChipEight.Proofs.CommandLine.KeySpellings
