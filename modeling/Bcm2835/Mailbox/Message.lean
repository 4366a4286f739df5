import Bcm2835.Mailbox.Names
import Bcm2835.Register.Formats

/-! Property messages: a header, one or more tags with room for their values, and an end word. A
message is laid out as words when it is posted and read back from the same number of words. -/

namespace Bcm2835

structure TagHeader where
  id : UInt32 := 0
  /-- Bytes of the value buffer. -/
  size : UInt32 := 0
  status : UInt32 := 0
  deriving DecidableEq, Repr

namespace TagHeader

/-- The header of a request with a value buffer of `size` bytes. -/
def request (tag : Tag) (size : UInt32) : TagHeader :=
  ⟨tag.id, size, (TagStatus.length.val size).value⟩

def responseLength (h : TagHeader) : UInt32 := TagStatus.length.read h.status

def hasResponse (h : TagHeader) : Bool := TagStatus.response.isSet h.status

end TagHeader

/-- One tag with its value words. -/
structure Property where
  header : TagHeader := {}
  data : List UInt32
  deriving DecidableEq, Repr

namespace Property

def words (p : Property) : List UInt32 :=
  p.header.id :: p.header.size :: p.header.status :: p.data

/-- The property that these words spell, in the room of `p`. -/
def refill (p : Property) : List UInt32 → Property
  | id :: size :: status :: data => ⟨⟨id, size, status⟩, data⟩
  | _ => p

theorem words_refill (p : Property) (ws : List UInt32) (h : ws.length = p.words.length) :
    (p.refill ws).words = ws := by
  match ws, h with
  | _ :: _ :: _ :: _, _ => rfl
  | [], h | [_], h | [_, _], h => simp [words] at h

/-- Properties in a row, each refilled from its own share of the words. -/
def refillAll : List Property → List UInt32 → List Property
  | [], _ => []
  | p :: ps, ws => p.refill (ws.take p.words.length) :: refillAll ps (ws.drop p.words.length)

theorem flatMap_words_refillAll (ps : List Property) (ws : List UInt32)
    (h : ws.length = (ps.flatMap words).length) : (refillAll ps ws).flatMap words = ws := by
  induction ps generalizing ws with
  | nil => exact (List.length_eq_zero_iff.1 (by simpa using h)).symm
  | cons p ps ih =>
    simp only [List.flatMap_cons, List.length_append] at h
    have hp : (ws.take p.words.length).length = p.words.length := by
      simp only [List.length_take]; omega
    have hps : (ws.drop p.words.length).length = (ps.flatMap words).length := by
      simp only [List.length_drop]; omega
    simp only [refillAll, List.flatMap_cons, words_refill p _ hp, ih _ hps]
    exact List.take_append_drop ..

end Property

/-- What a message carries between its header and its end word. -/
class Payload (β : Type) where
  words : β → List UInt32
  /-- The payload that these words spell, in the room of another. -/
  refill : β → List UInt32 → β
  words_refill : ∀ b ws, ws.length = (words b).length → words (refill b ws) = ws

instance : Payload Property := ⟨Property.words, Property.refill, Property.words_refill⟩

instance : Payload (List Property) :=
  ⟨List.flatMap Property.words, Property.refillAll, Property.flatMap_words_refillAll⟩

structure Message (β : Type) where
  byteSize : UInt32
  code : UInt32
  body : β
  endTag : UInt32
  deriving DecidableEq, Repr

namespace Message

variable {β : Type} [Payload β]

/-- The code of a message that waits for an answer. -/
def requestCode : UInt32 := 0

/-- The code of a message that was answered without an error. -/
def successCode : UInt32 := 0x80000000

def words (m : Message β) : List UInt32 :=
  m.byteSize :: m.code :: (Payload.words m.body ++ [m.endTag])

/-- Bytes that a message with this body takes: messages are made of units of 16 bytes. -/
def sizeFor (body : β) : UInt32 :=
  UInt32.ofNat ((4 * (3 + (Payload.words body).length) + 15) / 16 * 16)

/-- Header and end word as a request has them. -/
def resetHeader (m : Message β) : Message β :=
  { m with byteSize := sizeFor m.body, code := requestCode, endTag := 0 }

def new (body : β) : Message β := ⟨sizeFor body, requestCode, body, 0⟩

/-- The message that these words spell, in the room of `m`. -/
def refill (m : Message β) : List UInt32 → Message β
  | byteSize :: code :: rest =>
    let room := (Payload.words m.body).length
    ⟨byteSize, code, Payload.refill m.body (rest.take room), rest.getD room m.endTag⟩
  | _ => m

theorem words_refill (m : Message β) (ws : List UInt32) (h : ws.length = m.words.length) :
    (m.refill ws).words = ws := by
  match ws, h with
  | [], h | [_], h => simp [words] at h
  | byteSize :: code :: rest, h =>
    have hrest : rest.length = (Payload.words m.body).length + 1 := by simpa [words] using h
    have hbody : (rest.take (Payload.words m.body).length).length =
        (Payload.words m.body).length := by
      simp only [List.length_take]; omega
    have hlast : rest.drop (Payload.words m.body).length =
        [rest.getD (Payload.words m.body).length m.endTag] := by
      rw [List.drop_eq_getElem_cons (by omega), List.drop_eq_nil_of_le (by omega),
        List.getD_eq_getElem?_getD, List.getElem?_eq_getElem (by omega), Option.getD_some]
    simp only [refill, words, Payload.words_refill _ _ hbody, ← hlast]
    simp [List.take_append_drop]

end Message

end Bcm2835
