import Bcm2835.SocRanges

/-! Mapping the peripheral block, at most once. The first success is kept; from then on it is the
answer to every request, and nothing is looked up or mapped again. A failure leaves the mapper as
it was. -/

namespace Bcm2835

/-- The mapped peripheral block. -/
structure Mapping where
  addr : Nat
  deriving DecidableEq, Repr

def Mapping.describe (m : Mapping) : String :=
  "Peripherals \x7b base: " ++ Numeral.address 1 m.addr ++ " \x7d"

/-- Where the peripheral block is looked up. -/
structure MapConfig where
  rangesPath : String := SocRanges.defaultPath
  /-- Taken if the record is missing or short. -/
  fallback : UInt32 := SocRanges.legacyBase
  /-- Taken without any lookup. -/
  base : Option UInt32 := none
  deriving DecidableEq, Repr

namespace MapConfig

def resolveBase (c : MapConfig) : Program Host UInt32 :=
  match c.base with
  | some base => pure base
  | none => SocRanges.peripheralBase c.rangesPath c.fallback

end MapConfig

structure Mapper where
  kept : Option Mapping := none
  deriving DecidableEq, Repr

namespace Mapper

open Program

/-- Validates the layout, resolves the base and maps the block. -/
def establish (c : MapConfig) : Program Host Mapping := do
  ofOutcome (Layout.validate Layout.regions)
  let base ← c.resolveBase
  let length := Layout.blockSize.toNat
  report (.mapping length base)
  let addr ← ofExcept (← Host.mapMemory base length)
  report (.mapped addr)
  return ⟨addr⟩

/-- The kept mapping, or a new one. The result comes with the mapper as it is afterwards. -/
def map (m : Mapper) (c : MapConfig) : Program Host (Except Error Mapping × Mapper) :=
  match m.kept with
  | some mapping => pure (.ok mapping, m)
  | none => do
    match ← (establish c).attempt with
    | .ok mapping => return (.ok mapping, ⟨some mapping⟩)
    | .error e => return (.error e, m)

end Mapper

end Bcm2835
