import Bcm2835.Budget
import Bcm2835.Device
import Bcm2835.Register.Field
import Bcm2835.Register.Formats
import Bcm2835.Board
import Bcm2835.Mailbox.Calls
import Bcm2835.Gpio
import Bcm2835.Spi0
import Bcm2835.SpiSlave.Port
import Bcm2835.SpiSlave.Setup
import Bcm2835.Uart0
import Bcm2835.Uart1
import Bcm2835.Mapper
import Bcm2835.Spinlock
import Bcm2835.Simulation.BoardBench
import Bcm2835.Simulation.MailboxBench
import Bcm2835.Simulation.PcmBench
import Bcm2835.CommandLine.Commands
import Bcm2835.Simulation.Files
import Bcm2835.Simulation.HostBench
import Bcm2835.Simulation.MachineBench
import Bcm2835.Simulation.PollBench
import Bcm2835.CommandLine.Session
import Bcm2835.Main
import Bcm2835.Proofs.Behaviour
import Bcm2835.Proofs.Metering
import Bcm2835.Proofs.Waiting
import Bcm2835.Proofs.Session
import Bcm2835.Proofs.Mailbox.Exchange
import Bcm2835.Proofs.Truncation
import Bcm2835.Proofs.Mailbox.Call
import Bcm2835.Proofs.Mailbox.Accounting
import Bcm2835.Proofs.Mailbox.Echo
import Bcm2835.Proofs.Coverage
import Bcm2835.Proofs.Mailbox.Property
import Bcm2835.Proofs.Composition
import Bcm2835.Proofs.SpiSlave.Intake
import Bcm2835.Proofs.SpiSlave.ByteOrder
import Bcm2835.Proofs.SpiSlave.Alignment
import Bcm2835.Proofs.SpiSlave.Handshake
import Bcm2835.Proofs.Limits
import Bcm2835.Proofs.SpiSlave.Report
import Bcm2835.Proofs.Everywhere
import Bcm2835.Proofs.DataRegisters
import Bcm2835.Proofs.SpiSlave.ClockSafety
import Bcm2835.Proofs.SpiSlave.Bounds
import Bcm2835.Proofs.SpiSlave.Answer
import Bcm2835.Proofs.Mapping
import Bcm2835.Proofs.Mailbox.MessageCall
import Bcm2835.Proofs.Mailbox.Request
import Bcm2835.Proofs.Mailbox.ClockQuery
import Bcm2835.Proofs.Mailbox.Service
import Bcm2835.Proofs.Mailbox.MultiTag
import Bcm2835.Proofs.Mailbox.Station
import Bcm2835.Proofs.Mailbox.Clocks
import Bcm2835.Proofs.Layout.Validation
import Bcm2835.Proofs.Layout.Tiling
import Bcm2835.Proofs.Sampling
import Bcm2835.Proofs.SystemTimer.Counter
import Bcm2835.Proofs.SystemTimer.Uptime
import Bcm2835.Proofs.SystemTimer.Delay
import Bcm2835.Proofs.SystemTimer.Wait
import Bcm2835.Proofs.Register.Bits
import Bcm2835.Proofs.Effects
import Bcm2835.Proofs.Board
import Bcm2835.Proofs.Gpio.Functions
import Bcm2835.Proofs.Gpio.Session
import Bcm2835.Proofs.SpiSlave.Attachment
import Bcm2835.Proofs.Remit
import Bcm2835.Proofs.UartSetUp
import Bcm2835.Proofs.Register.Views
import Bcm2835.Proofs.Divisors
import Bcm2835.Proofs.BaseLookup
import Bcm2835.Proofs.Mailbox.Unsent
import Bcm2835.Proofs.TextOutput
import Bcm2835.Proofs.Machine
import Bcm2835.Proofs.Gpio.Waveform
import Bcm2835.Proofs.Blink
import Bcm2835.Proofs.Spinlock
import Bcm2835.Proofs.Text.Numeral
import Bcm2835.Proofs.CommandLine.Values
