/-! The numbers the firmware goes by: mailbox channels, property tags and clocks. -/

namespace Bcm2835

inductive Channel where
  | powerManagement
  | framebuffer
  | virtualUart
  | vchiq
  | leds
  | buttons
  | touchScreen
  /-- Property tags, processor to firmware. -/
  | property
  deriving DecidableEq, Repr

namespace Channel

def all : List Channel :=
  [powerManagement, framebuffer, virtualUart, vchiq, leds, buttons, touchScreen, property]

def number : Channel → UInt32
  | powerManagement => 0
  | framebuffer => 1
  | virtualUart => 2
  | vchiq => 3
  | leds => 4
  | buttons => 5
  | touchScreen => 6
  | property => 8

def name : Channel → String
  | powerManagement => "PowerManagement"
  | framebuffer => "Framebuffer"
  | virtualUart => "VirtualUart"
  | vchiq => "Vchiq"
  | leds => "Leds"
  | buttons => "Buttons"
  | touchScreen => "TouchScreen"
  | property => "Property"

end Channel

/-- The property tags in use. -/
inductive Tag where
  | firmwareRevision
  | clockState
  | clockRate
  | clockRateMeasured
  | setClockState
  | setClockRate
  deriving DecidableEq, Repr

namespace Tag

def all : List Tag :=
  [firmwareRevision, clockState, clockRate, clockRateMeasured, setClockState, setClockRate]

def id : Tag → UInt32
  | firmwareRevision => 0x00000001
  | clockState => 0x00030001
  | clockRate => 0x00030002
  | clockRateMeasured => 0x00030047
  | setClockState => 0x00038001
  | setClockRate => 0x00038002

def name : Tag → String
  | firmwareRevision => "GetFirmwareRevision"
  | clockState => "GetClockState"
  | clockRate => "GetClockRate"
  | clockRateMeasured => "GetClockRateMeasured"
  | setClockState => "SetClockState"
  | setClockRate => "SetClockRate"

end Tag

/-- The clocks the clock tags know. -/
inductive Clock where
  | reserved
  | emmc
  | uart
  | arm
  | core
  | v3d
  | h264
  | isp
  | sdram
  | pixel
  | pwm
  | hevc
  | emmc2
  | m2mc
  | pixelBvb
  deriving DecidableEq, Repr

namespace Clock

def all : List Clock :=
  [reserved, emmc, uart, arm, core, v3d, h264, isp, sdram, pixel, pwm, hevc, emmc2, m2mc, pixelBvb]

def number : Clock → UInt32
  | reserved => 0
  | emmc => 1
  | uart => 2
  | arm => 3
  | core => 4
  | v3d => 5
  | h264 => 6
  | isp => 7
  | sdram => 8
  | pixel => 9
  | pwm => 10
  | hevc => 11
  | emmc2 => 12
  | m2mc => 13
  | pixelBvb => 14

def name : Clock → String
  | reserved => "Reserved"
  | emmc => "Emmc"
  | uart => "Uart"
  | arm => "Arm"
  | core => "Core"
  | v3d => "V3d"
  | h264 => "H264"
  | isp => "Isp"
  | sdram => "Sdram"
  | pixel => "Pixel"
  | pwm => "Pwm"
  | hevc => "Hevc"
  | emmc2 => "Emmc2"
  | m2mc => "M2mc"
  | pixelBvb => "PixelBvb"

/-- The clock of a number, if it has one. -/
def ofNumber? (n : Nat) : Option Clock := all.find? fun c => c.number.toNat == n

theorem ofNumber?_number (c : Clock) : ofNumber? c.number.toNat = some c := by
  cases c <;> rfl

theorem number_of_ofNumber? {n : Nat} {c : Clock} (h : ofNumber? n = some c) :
    c.number.toNat = n := by
  simpa using List.find?_some h

end Clock

end Bcm2835
