import DevBoards.Core.Machine
import DevBoards.Core.System
import DevBoards.Core.Deadline
import DevBoards.Core.Serial
import DevBoards.Core.Interleaving
import DevBoards.Core.XorLinear
import DevBoards.Core.Orbit
import DevBoards.Core.Fields
import DevBoards.Hw.Gpio
import DevBoards.Hw.Scope
import DevBoards.Hw.CString
import DevBoards.Hw.LogTimer
import DevBoards.Hw.Linker
import DevBoards.Hw.Apb
import DevBoards.Mdio.Interface
import DevBoards.Mdio.Phy
import DevBoards.Mdio.Frame
import DevBoards.Mdio.RegisterMap
import DevBoards.Mdio.Mmd
import DevBoards.Mdio.Discipline
import DevBoards.SuperLink.Registers
import DevBoards.SuperLink.Handshake
import DevBoards.SuperLink.Frames
import DevBoards.SuperLink.Spi
import DevBoards.SuperLink.ChipSelect
import DevBoards.SuperLink.Link
import DevBoards.SuperLink.Linear
import DevBoards.SuperLink.Interrupt
import DevBoards.MainLoop.Iteration
import DevBoards.MainLoop.PhyPoll
import DevBoards.MainLoop.Aging
import DevBoards.MainLoop.LinkState
import DevBoards.MainLoop.Reaction
import DevBoards.Supervisor.ResetSequence
import DevBoards.Supervisor.Blink
import DevBoards.Supervisor.Freeze
import DevBoards.Supervisor.Indicator
import DevBoards.Supervisor.ButtonTask
import DevBoards.RelayMux.Board
import DevBoards.RelayMux.Firmware
import DevBoards.RelayMux.Agreement
import DevBoards.RelayMux.Pulse
import DevBoards.RelayMux.Grammar
import DevBoards.MemoryMap.Layout
import DevBoards.MemoryMap.Tree
import DevBoards.Tree.LEDTask
import DevBoards.Tree.Panel
import DevBoards.Tree.Prbs
import DevBoards.Tree.Bitbang
import DevBoards.Tree.Persistence
import DevBoards.Sccb.Host
import DevBoards.Converter.Identity
import DevBoards.Converter.Firmware
import DevBoards.Converter.Startup
import DevBoards.Converter.Boot
import DevBoards.Converter.Links
import DevBoards.Bringup.Loopback
import DevBoards.Bringup.Fpga
