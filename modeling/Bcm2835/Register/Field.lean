/-! Bit fields of 32-bit registers. A field is a run of bits with a name; an assignment says which
bits of a word to change and to what, and assignments to several fields of one register add up. -/

namespace Bcm2835

structure Field where
  name : String
  offset : Nat
  width : Nat
  /-- Field values that have a name of their own. -/
  values : List (String × UInt32) := []
  fits : offset + width ≤ 32 := by decide

/-- A change to a word: the bits it touches, and what they become. -/
structure Assignment where
  mask : UInt32
  value : UInt32
  deriving DecidableEq, Repr

namespace Assignment

instance : Add Assignment where
  add a b := ⟨a.mask ||| b.mask, a.value ||| b.value⟩

/-- The word with the touched bits replaced. -/
def applyTo (a : Assignment) (word : UInt32) : UInt32 := (word &&& ~~~a.mask) ||| a.value

/-- Whether the touched bits of the word already are what they would become. -/
def agrees (a : Assignment) (word : UInt32) : Bool := word &&& a.mask == a.value

end Assignment

namespace Field

/-- A word of `width` ones. -/
def ones (f : Field) : UInt32 := UInt32.ofNat (1 <<< f.width - 1)

def mask (f : Field) : UInt32 := f.ones <<< UInt32.ofNat f.offset

/-- The number the field holds. -/
def read (f : Field) (word : UInt32) : UInt32 := (word >>> UInt32.ofNat f.offset) &&& f.ones

/-- Whether any bit of the field is set. -/
def isSet (f : Field) (word : UInt32) : Bool := word &&& f.mask != 0

/-- Puts a number into the field; bits that do not fit are dropped. -/
def val (f : Field) (v : UInt32) : Assignment := ⟨f.mask, (v &&& f.ones) <<< UInt32.ofNat f.offset⟩

def set (f : Field) : Assignment := f.val f.ones

def clear (f : Field) : Assignment := f.val 0

/-- The name of the value the field holds, if that value has one. -/
def valueName? (f : Field) (word : UInt32) : Option String :=
  (f.values.find? fun v => v.2 == f.read word).map (·.1)

/-- Two fields of one register that share no bit. -/
def Disjoint (f g : Field) : Prop := f.offset + f.width ≤ g.offset ∨ g.offset + g.width ≤ f.offset

instance (f g : Field) : Decidable (f.Disjoint g) := inferInstanceAs (Decidable (_ ∨ _))

end Field

/-- The fields of one kind of register. -/
structure RegisterFormat where
  name : String
  fields : List Field
  disjoint : fields.Pairwise Field.Disjoint := by decide

/-- The field of a name. -/
def RegisterFormat.field? (r : RegisterFormat) (name : String) : Option Field :=
  r.fields.find? fun f => f.name == name

end Bcm2835
