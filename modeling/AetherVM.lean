import AetherVM.Infra.Bytes
import AetherVM.Infra.Codec
import AetherVM.Infra.Mem
import AetherVM.Infra.WordMem
import AetherVM.Infra.Search
import AetherVM.Infra.Rank
import AetherVM.Infra.Reading
import AetherVM.Infra.Cut
import AetherVM.Infra.Run
import AetherVM.Infra.Bump
import AetherVM.Infra.Refine
import AetherVM.Infra.Intern
import AetherVM.Infra.RefCount
import AetherVM.Infra.Exchange
import AetherVM.Infra.Machine
import AetherVM.Infra.ContextSwitch
import AetherVM.Infra.WordBank
import AetherVM.MetaData.Layout
import AetherVM.MetaData.Reader
import AetherVM.Opcode.Handler
import AetherVM.Encode.Serialize
import AetherVM.Encode.Record
import AetherVM.Encode.File
import AetherVM.Encode.Roundtrip
import AetherVM.Encode.Native
import AetherVM.Encode.Dump
import AetherVM.Encode.DumpReads
import AetherVM.Encode.DumpWalk
import AetherVM.Interp.Runtime
import AetherVM.Interp.Lookup
import AetherVM.Interp.Lossless
import AetherVM.Interp.Mapping
import AetherVM.Interp.Dispatch
import AetherVM.Interp.DispatchSound
import AetherVM.Interp.Find
import AetherVM.Interp.NextCache
import AetherVM.Orchestrator.Encode
import AetherVM.Orchestrator.Find
import AetherVM.Orchestrator.Cache
import AetherVM.Orchestrator.Segment
import AetherVM.Orchestrator.Lookup
import AetherVM.Orchestrator.Structure
import AetherVM.Operand.Remill
import AetherVM.Operand.Convert
import AetherVM.Operand.Raw
import AetherVM.Operand.Typed
import AetherVM.Encode.ImplTable
import AetherVM.Operand.Intern
import AetherVM.Operand.Agree
import AetherVM.Operand.InternSound
import AetherVM.Utils
import AetherVM.Opcode.Init
import AetherVM.Opcode.Engine
import AetherVM.Opcode.Cache
import AetherVM.Opcode.Emulate
import AetherVM.Opcode.Keys
import AetherVM.Opcode.MCInst
import AetherVM.Opcode.Normalize
import AetherVM.Opcode.Window
import AetherVM.Opcode.Mapped
import AetherVM.Encode.Prefetch
import AetherVM.Interp.MCInst
import AetherVM.Interp.AArch64
import AetherVM.Interp.Load
import AetherVM.Encode.HandlerIndex
import AetherVM.Interp.Remill
import AetherVM.Operand.Shift
import AetherVM.Interp.RemillRefine
import AetherVM.Process.World
import AetherVM.Process.Lifetime
import AetherVM.Debugger.Watchdog
import AetherVM.Engine.Memory
import AetherVM.Engine.Register
import AetherVM.Engine.Region
import AetherVM.Engine.Event
import AetherVM.Engine.Vm
import AetherVM.Engine.Load
import AetherVM.Engine.Intrinsic
import AetherVM.Engine.OptIn
import AetherVM.Engine.Terminate
import AetherVM.Engine.Skip
import AetherVM.Engine.Address
import AetherVM.Engine.BlockEvent
import AetherVM.Lifter.Session
import AetherVM.Lifter.Native
import AetherVM.Lifter.NativeAArch64
import AetherVM.Lifter.NativeX64
import AetherVM.Lifter.VectorX64
import AetherVM.Debugger.Context
import AetherVM.Debugger.ContextSound
import AetherVM.Debugger.Threads
import AetherVM.Engine.RegisterMap
import AetherVM.Debugger.Breakpoint
import AetherVM.Debugger.Resume
import AetherVM.Infra.Loop
import AetherVM.Interp.VmEntry
import AetherVM.Interp.VmEntrySound
import AetherVM.Interp.Aot
import AetherVM.Entry.AArch64
import AetherVM.Entry.Chain
import AetherVM.Entry.Frame
import AetherVM.Entry.Return
import AetherVM.Entry.CallHost
import AetherVM.Entry.Engine
import AetherVM.Entry.Dynamic
import AetherVM.Debugger.Xfer
