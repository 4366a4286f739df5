import Bcm2835.Gpio
import Bcm2835.SpiSlave.Transfer

/-! Attaching the PCM interface to its pins as a clock slave. -/

namespace Bcm2835.SpiSlave

open Program

/-- Clock, frame sync, data in, data out. -/
def pins : List UInt8 := [28, 29, 30, 31]

/-- The PCM clock during the reset: the oscillator divided by this. -/
def resetDivisor : UInt32 := 250

/-- One channel of eight bits at the start of the frame. -/
def channelOne : Assignment :=
  PcmChannel.ch1wex.clear + PcmChannel.ch1pos.val 0 + PcmChannel.ch1wid.val 0 +
    PcmChannel.ch1en.set

/-- The clock manager takes only writes that carry its password. -/
def resetClockDivisor : Assignment :=
  CmDiv.passwd.val ClockGenerator.password + CmDiv.divi.val resetDivisor

def resetClockControl : Assignment :=
  CmCtl.passwd.val ClockGenerator.password + CmCtl.src.val 1 + CmCtl.mash.val 1 + CmCtl.enab.set

/-- Frames of eight bits, the clock off. -/
def frame : Assignment := PcmMode.flen.val 7 + PcmMode.fslen.val 7 + PcmMode.clkDis.set

/-- Frames of eight bits, clock and frame sync taken from the master, the clock off. -/
def slaveFrame : Assignment :=
  PcmMode.flen.val 7 + PcmMode.fslen.val 7 + PcmMode.clkm.set + PcmMode.fsm.set +
    PcmMode.fsi.set + PcmMode.clkDis.set

/-- Both FIFOs and error flags cleared, both directions on, and the sync bit sent through. -/
def startUp : Assignment :=
  PcmCs.txclr.set + PcmCs.rxclr.set + PcmCs.txerr.set + PcmCs.rxerr.set + PcmCs.txon.set +
    PcmCs.rxon.set + PcmCs.sync.set + PcmCs.stby.set + PcmCs.en.set

/-- Resets the interface as clock master on the oscillator, then hands clock and frame sync to the
master. The pins are detached until that is done. -/
def init (budget : Budget) (pause : UInt32 → Driver Unit) : Driver Unit :=
  within budget do
    pins.forM fun pin => do
      Gpio.configure pin .input
    drain (PcmBlock.cs.isSet PcmCs.rxd) (discard PcmBlock.fifo.get)
    PcmBlock.cs.modify PcmCs.en.clear
    pause SystemTimer.ticksPerMillisecond
    PcmBlock.rxc.set 0
    PcmBlock.txc.set 0
    PcmBlock.inten.set 0
    PcmBlock.intstc.write (PcmInt.txw.set + PcmInt.rxr.set + PcmInt.txerr.set + PcmInt.rxerr.set)
    PcmBlock.gray.set 0
    PcmBlock.rxc.modify channelOne
    PcmBlock.txc.modify channelOne
    ClockGenerator.pcm.divisor.write resetClockDivisor
    ClockGenerator.pcm.control.write resetClockControl
    PcmBlock.mode.write frame
    PcmBlock.mode.modify PcmMode.clkDis.clear
    PcmBlock.cs.write startUp
    waitUntil (PcmBlock.cs.isSet PcmCs.sync)
    PcmBlock.cs.modify PcmCs.sync.clear
    waitUntil (not <$> PcmBlock.cs.isSet PcmCs.sync)
    PcmBlock.mode.modify PcmMode.clkDis.set
    PcmBlock.mode.write slaveFrame
    pins.forM fun pin => do
      Gpio.configure pin .alt2
    PcmBlock.mode.modify PcmMode.clkDis.clear
    report .attached

end Bcm2835.SpiSlave
