import Bcm2835.Proofs.Mailbox.MessageCall

/-! The messages that go out. Whatever a message held before, a call posts it with its size, the
code of a request and an end word filled in (`Conduct.posts`). A reader that steps from tag to tag
by the sizes in their headers comes by every tag of such a message and then by the end word
(`visits_tags`). Both together are `posts_well_formed`. -/

namespace Bcm2835

open Program Transcript

/-! ## Tags in a row -/

theorem Tag.id_ne_zero (tag : Tag) : tag.id ≠ 0 := by
  cases tag <;> decide

namespace Property

/-- A tag with its values, as a request has it. -/
def asking (tag : Tag) (data : List UInt32) : Property :=
  ⟨TagHeader.request tag (UInt32.ofNat (4 * data.length)), data⟩

/-- A reader gets from this tag to the word behind its values. -/
structure Sized (p : Property) : Prop where
  id_ne : p.header.id ≠ 0
  size_eq : p.header.size.toNat = 4 * p.data.length

@[simp] theorem length_words (p : Property) : p.words.length = 3 + p.data.length := by
  simp only [words, List.length_cons]
  omega

theorem length_flatMap_words (ps : List Property) :
    (ps.flatMap words).length = ((ps.map (·.data.length)).map (3 + ·)).sum := by
  simp [List.length_flatMap, Function.comp_def]

theorem length_flatMap_words_of_forall {ps : List Property} {n : Nat}
    (h : ∀ p ∈ ps, p.data.length = n) : (ps.flatMap words).length = ps.length * (3 + n) := by
  have hlengths : ps.map (·.data.length) = List.replicate ps.length n :=
    List.map_eq_replicate_iff.2 h
  rw [length_flatMap_words, hlengths, List.map_replicate, List.sum_replicate_nat]

theorem asking_sized (tag : Tag) {data : List UInt32} (h : data.length < 2 ^ 30) :
    (asking tag data).Sized where
  id_ne := tag.id_ne_zero
  size_eq := by
    apply UInt32.toNat_ofNat_of_lt'
    simp only [UInt32.size]
    omega

end Property

/-- What a reader of tags comes by from a place on: every tag with its place, and the place of the
end word if it comes to one. -/
def visits (buffer : List UInt32) (place : Nat) : List (Nat × UInt32) × Option Nat :=
  if h : place < buffer.length then
    if buffer[place] = 0 then
      ([], some place)
    else
      let behind := visits buffer (place + 3 + (buffer.getD (place + 1) 0).toNat / 4)
      ((place, buffer[place]) :: behind.1, behind.2)
  else
    ([], none)
termination_by buffer.length - place

variable (front rest : List UInt32)

theorem visits_end : visits (front ++ 0 :: rest) front.length = ([], some front.length) := by
  rw [visits]
  simp

theorem visits_words {p : Property} (hp : p.Sized) :
    visits (front ++ (p.words ++ rest)) front.length =
      let behind := visits (front ++ (p.words ++ rest)) (front.length + p.words.length)
      ((front.length, p.header.id) :: behind.1, behind.2) := by
  have hstep : front.length + 3 + p.header.size.toNat / 4 = front.length + p.words.length := by
    rw [hp.size_eq, Property.length_words]
    omega
  have hid : (front ++ (p.words ++ rest))[front.length]? = some p.header.id := by
    simp [Property.words]
  have hsize : (front ++ (p.words ++ rest)).getD (front.length + 1) 0 = p.header.size := by
    simp [Property.words]
  obtain ⟨hlt, hid⟩ := List.getElem?_eq_some_iff.1 hid
  rw [visits, dif_pos hlt, hid, if_neg hp.id_ne, hsize, hstep]

/-- The reader comes by every tag and then by the end word. -/
theorem visits_tags {ps : List Property} {n : Nat} (hs : ∀ p ∈ ps, p.Sized)
    (hn : ∀ p ∈ ps, p.data.length = n) :
    visits (front ++ (ps.flatMap Property.words ++ [0])) front.length =
      (ps.mapIdx fun i p => (front.length + i * (3 + n), p.header.id),
        some (front.length + ps.length * (3 + n))) := by
  -- the tags that were passed join what is in front
  induction ps generalizing front with
  | nil => simpa using visits_end front []
  | cons p ps ih =>
    have hlength : front.length + p.words.length = (front ++ p.words).length :=
      List.length_append.symm
    have hwidth : (front ++ p.words).length = front.length + (3 + n) := by
      rw [← hlength, Property.length_words, hn p List.mem_cons_self]
    have hbehind := ih (front ++ p.words) (fun q hq => hs q (List.mem_cons_of_mem _ hq))
      fun q hq => hn q (List.mem_cons_of_mem _ hq)
    rw [hwidth, List.append_assoc] at hbehind
    rw [List.flatMap_cons, List.append_assoc, visits_words front _ (hs p List.mem_cons_self),
      hlength, hwidth, hbehind, List.mapIdx_cons, List.length_cons]
    simp only [Nat.zero_mul, Nat.add_zero, Nat.add_mul, Nat.one_mul]
    congr 2
    · congr 2
      funext i q
      congr 1
      omega
    · omega

/-- In a message the tags start behind the two words of the header. -/
theorem visits_message {ps : List Property} {n : Nat} (size code : UInt32)
    (hs : ∀ p ∈ ps, p.Sized) (hn : ∀ p ∈ ps, p.data.length = n) :
    visits (size :: code :: (ps.flatMap Property.words ++ [0])) 2 =
      (ps.mapIdx fun i p => (2 + i * (3 + n), p.header.id), some (2 + ps.length * (3 + n))) :=
  visits_tags [size, code] hs hn

/-! ## Sizes -/

/-- So many bytes are the fewest in units of 16 that hold `n` words. -/
structure Fits (size : UInt32) (n : Nat) : Prop where
  dvd : 16 ∣ size.toNat
  le : 4 * n ≤ size.toNat
  lt : size.toNat < 4 * n + 16

theorem Message.sizeFor_fits {β : Type} [Payload β] {body : β} {n : Nat}
    (hn : (Payload.words body).length = n) (h : (4 * (3 + n) + 15) / 16 * 16 < 2 ^ 32) :
    Fits (Message.sizeFor body) (3 + n) := by
  have hsize : (Message.sizeFor body).toNat = (4 * (3 + n) + 15) / 16 * 16 := by
    rw [Message.sizeFor, hn]
    exact UInt32.toNat_ofNat_of_lt' h
  constructor <;> rw [hsize]
  · apply Nat.dvd_mul_left
  · omega
  · omega

/-- A length that leaves bit 31 free is the whole status word of a request. -/
theorem TagHeader.request_status (tag : Tag) {n : Nat} (h : n < 2 ^ 31) :
    (TagHeader.request tag (UInt32.ofNat n)).status = UInt32.ofNat n := by
  have hn : (UInt32.ofNat n).toNat = n := UInt32.toNat_ofNat_of_lt' (Nat.lt_trans h (by decide))
  apply UInt32.toNat_inj.1
  have hmask : (UInt32.ofNat n &&& 0x7FFFFFFF).toNat = n := by
    rw [UInt32.toNat_and, hn]
    exact Nat.and_two_pow_sub_one_of_lt_two_pow h
  calc (TagHeader.request tag (UInt32.ofNat n)).status.toNat
      = ((UInt32.ofNat n &&& 0x7FFFFFFF) <<< 0).toNat := rfl
    _ = (UInt32.ofNat n).toNat := by rw [UInt32.shiftLeft_zero, hmask, hn]

theorem TagHeader.request_hasResponse (tag : Tag) (size : UInt32) :
    (TagHeader.request tag size).hasResponse = false := by
  have hmask : (size &&& 0x7FFFFFFF) <<< 0 &&& 0x80000000 = 0 := by
    rw [UInt32.shiftLeft_zero, UInt32.and_assoc]
    exact UInt32.and_zero
  exact bne_eq_false_iff_eq.2 hmask

theorem Property.asking_words (tag : Tag) {data : List UInt32} (h : data.length < 2 ^ 29) :
    (Property.asking tag data).words =
      tag.id :: UInt32.ofNat (4 * data.length) :: UInt32.ofNat (4 * data.length) :: data := by
  have hstatus : (Property.asking tag data).header.status = UInt32.ofNat (4 * data.length) :=
    TagHeader.request_status tag (by omega)
  rw [Property.words, hstatus]
  rfl

namespace Mailbox

open MailboxPort

/-! ## Posts -/

/-- The writes to the mailbox, each with the message its word leads to if it leads to one. -/
def handovers (A : List (Access MailboxPort)) : List (UInt32 × Option (List UInt32)) :=
  A.filterMap fun
    | ⟨.write word, _⟩ => some (word, none)
    | ⟨.post word message, _⟩ => some (word, some message)
    | _ => none

theorem handovers_append (A B : List (Access MailboxPort)) :
    handovers (A ++ B) = handovers A ++ handovers B := List.filterMap_append

theorem handovers_of_silent {A : List (Access MailboxPort)} (h : Silent A) : handovers A = [] := by
  refine List.filterMap_eq_nil_iff.2 fun a ha => ?_
  obtain ⟨r, v⟩ := a
  rcases h _ ha with h | h | h | h <;> cases h <;> rfl

/-- The mailbox is written to if there is room, and then once; the word leads to this message. -/
def Posts (words : List UInt32) (A : List (Access MailboxPort)) : Prop :=
  (fullPoll false ∉ A ∧ handovers A = []) ∨
    fullPoll false ∈ A ∧ ∃ addr, located addr ∈ A ∧
      handovers A = [(compose .property addr, some words)]

variable {β : Type} [Payload β] {message : Message β}

/-- What comes behind the post of a message does not write to the mailbox. -/
theorem posts_of_behind {words : List UInt32} {addr : UInt32} {full : Nat}
    {B : List (Access MailboxPort)} (hB : handovers B = []) :
    Posts words (located addr :: (List.replicate full (fullPoll true) ++
      [fullPoll false, posted (compose .property addr) words] ++ B)) := by
  refine .inr ⟨by simp, addr, by simp, ?_⟩
  have hfront : handovers (located addr :: List.replicate full (fullPoll true)) = [] :=
    handovers_of_silent (by simp)
  rw [← List.cons_append, ← List.cons_append, handovers_append, handovers_append, hfront, hB]
  rfl

theorem Conduct.posts {A : List (Access MailboxPort)} {s : Stop (Message β × Except Error Unit)}
    (h : Conduct message A s) : Posts message.words A := by
  cases h with
  | unreachable e =>
    refine .inl ⟨fun hroom => ?_, rfl⟩
    cases List.mem_singleton.1 hroom
  | crowded addr full =>
    refine .inl ⟨fun hroom => ?_, handovers_of_silent (by simp)⟩
    rcases List.mem_cons.1 hroom with h | h
    · cases h
    · cases List.eq_of_mem_replicate h
  | listening addr full others empties =>
    rw [List.append_assoc _ (others.flatMap Arrival.accesses)]
    apply posts_of_behind
    exact handovers_of_silent (by simp)
  | abandoned addr full others empties v =>
    rw [List.cons_append, List.append_assoc, List.append_assoc]
    apply posts_of_behind
    rw [handovers_append, handovers_append, handovers_of_silent (silent_arrivals others),
      handovers_of_silent (silent_emptyPolls empties)]
    rfl
  | answered x v =>
    rw [Traffic.exchange, List.cons_append, List.append_assoc, List.append_assoc]
    apply posts_of_behind
    rw [handovers_append, handovers_append, handovers_of_silent (silent_arrivals x.others),
      handovers_of_silent (silent_arrival _)]
    rfl

/-! ## Calls -/

variable {budget : Budget} {limit : Nat} {T : Transcript MailboxPort}

theorem requestFor_words (tag : Tag) (message : Message Property) :
    (requestFor tag message).words = Message.sizeFor message.body :: 0 ::
      ((Property.asking tag message.body.data).words ++ [0]) := rfl

theorem propertyCall_posts {tag : Tag} {message : Message Property} {n : Nat}
    {s : Stop (Message Property × Except Error Unit)} (hn : message.body.data.length = n)
    (hlt : n < 2 ^ 29) (hT : (propertyCall budget tag message limit).Runs T s) :
    ∃ size words, Fits size (6 + n) ∧
      words = size :: 0 :: tag.id :: UInt32.ofNat (4 * n) :: UInt32.ofNat (4 * n) ::
        (message.body.data ++ [0]) ∧
      Posts words T.accesses ∧ TagStatus.response.isSet (UInt32.ofNat (4 * n)) = false ∧
      visits words 2 = ([(2, tag.id)], some (5 + n)) := by
  subst hn
  have hposts := (runs_propertyCall hT).posts
  rw [requestFor_words] at hposts
  refine ⟨Message.sizeFor message.body, _, ?_, ?_, hposts, ?_, ?_⟩
  · rw [show 6 + message.body.data.length = 3 + (3 + message.body.data.length) by omega]
    exact Message.sizeFor_fits (Property.length_words _) (by omega)
  · rw [Property.asking_words tag hlt]
    rfl
  · have hclear := TagHeader.request_hasResponse tag (UInt32.ofNat (4 * message.body.data.length))
    rwa [TagHeader.hasResponse, TagHeader.request_status tag (by omega)] at hclear
  · let asked := Property.asking tag message.body.data
    have hsized : ∀ p ∈ [asked], p.Sized :=
      List.forall_mem_singleton.2 (Property.asking_sized tag (by omega))
    have hlength : ∀ p ∈ [asked], p.data.length = message.body.data.length :=
      List.forall_mem_singleton.2 rfl
    have hvisits := visits_message (Message.sizeFor message.body) 0 hsized hlength
    rw [List.flatMap_singleton] at hvisits
    refine hvisits.trans ?_
    rw [List.mapIdx_singleton, List.length_singleton, Nat.zero_mul, Nat.one_mul, ← Nat.add_assoc]
    rfl

theorem propertyCallMulti_posts {message : Message (List Property)} {n : Nat}
    {s : Stop (Message (List Property) × Except Error Unit)}
    (hp : ∀ p ∈ message.body, p.data.length = n ∧
      ∃ tag, p.header = TagHeader.request tag (UInt32.ofNat (4 * n)))
    (hlt : (4 * (3 + message.body.length * (3 + n)) + 15) / 16 * 16 < 2 ^ 32)
    (hT : (propertyCallMulti budget message limit).Runs T s) :
    ∃ size words, Fits size (3 + message.body.length * (3 + n)) ∧
      words = size :: 0 :: (message.body.flatMap Property.words ++ [0]) ∧
      Posts words T.accesses ∧
      visits words 2 = (message.body.mapIdx fun i p => (2 + i * (3 + n), p.header.id),
        some (2 + message.body.length * (3 + n))) := by
  have hn : ∀ p ∈ message.body, p.data.length = n := fun p h => (hp p h).1
  have hsized : ∀ p ∈ message.body, p.Sized := by
    intro p h
    obtain ⟨hdata, tag, hheader⟩ := hp p h
    have hpos : 0 < message.body.length := List.length_pos_of_mem h
    have hle : 3 + n ≤ message.body.length * (3 + n) := Nat.le_mul_of_pos_left _ hpos
    have hasked : p = Property.asking tag p.data := by
      rw [Property.asking, hdata, ← hheader]
    rw [hasked]
    exact Property.asking_sized tag (by omega)
  have hposts := (runs_callMessage hT).posts
  refine ⟨Message.sizeFor message.body, _, ?_, rfl, hposts, visits_message _ _ hsized hn⟩
  exact Message.sizeFor_fits (Property.length_flatMap_words_of_forall hn) hlt

/-- A request that goes out is well formed, whatever its message held before and whatever the port
answers: with one tag, and with any number of them. -/
theorem posts_well_formed (budget : Budget) (limit : Nat) (T : Transcript MailboxPort) :
    (∀ (tag : Tag) (message : Message Property) (n : Nat)
        (s : Stop (Message Property × Except Error Unit)),
      message.body.data.length = n → n < 2 ^ 29 →
      (propertyCall budget tag message limit).Runs T s →
        ∃ size words, Fits size (6 + n) ∧
          words = size :: 0 :: tag.id :: UInt32.ofNat (4 * n) :: UInt32.ofNat (4 * n) ::
            (message.body.data ++ [0]) ∧
          Posts words T.accesses ∧ TagStatus.response.isSet (UInt32.ofNat (4 * n)) = false ∧
          visits words 2 = ([(2, tag.id)], some (5 + n))) ∧
    ∀ (message : Message (List Property)) (n : Nat)
        (s : Stop (Message (List Property) × Except Error Unit)),
      (∀ p ∈ message.body, p.data.length = n ∧
        ∃ tag, p.header = TagHeader.request tag (UInt32.ofNat (4 * n))) →
      (4 * (3 + message.body.length * (3 + n)) + 15) / 16 * 16 < 2 ^ 32 →
      (propertyCallMulti budget message limit).Runs T s →
        ∃ size words, Fits size (3 + message.body.length * (3 + n)) ∧
          words = size :: 0 :: (message.body.flatMap Property.words ++ [0]) ∧
          Posts words T.accesses ∧
          visits words 2 = (message.body.mapIdx fun i p => (2 + i * (3 + n), p.header.id),
            some (2 + message.body.length * (3 + n))) := by
  constructor
  · intro tag message n s hn hlt hT
    exact propertyCall_posts hn hlt hT
  · intro message n s hp hlt hT
    exact propertyCallMulti_posts hp hlt hT

/-- A port that has room, and a word, at every look. -/
def readyPort : Behaviour MailboxPort := port (fun _ => false) (fun _ => false) fun _ => 0x18

/-- A message as an answer left it. -/
def answeredMessage : Message Property :=
  ⟨32, Message.successCode, ⟨⟨Tag.firmwareRevision.id, 4, 0x80000004⟩, [4, 0]⟩, 7⟩

def twoQuestions : Message (List Property) :=
  .new [.asking .clockState [4, 0], .asking .clockRate [4, 0]]

theorem posts_well_formed_readyPort :
    (∃ size, Fits size 8 ∧ ∃ addr,
      handovers ((propertyCall .unlimited .clockState answeredMessage).record
        readyPort 1).transcript.accesses =
        [(compose .property addr, some [size, 0, 0x00030001, 8, 8, 4, 0, 0])]) ∧
    ∃ size, Fits size 13 ∧ ∃ addr,
      handovers ((propertyCallMulti .unlimited twoQuestions).record
        readyPort 1).transcript.accesses =
        [(compose .property addr,
          some [size, 0, 0x00030001, 8, 8, 4, 0, 0x00030002, 8, 8, 4, 0, 0])] := by
  constructor
  · obtain ⟨hcall, -⟩ := posts_well_formed .unlimited 1
      ((propertyCall .unlimited .clockState answeredMessage).record readyPort 1).transcript
    obtain ⟨size, words, hsize, rfl, hposts, -, -⟩ := hcall .clockState answeredMessage 2 _ rfl
      (by decide) (Tree.runs_record readyPort _ [])
    rcases hposts with ⟨hnone, -⟩ | ⟨-, addr, -, hhandovers⟩
    · exact absurd (.tail _ (.head _)) hnone
    · exact ⟨size, hsize, addr, hhandovers⟩
  · have hbody : ∀ p ∈ twoQuestions.body, p.data.length = 2 ∧
        ∃ tag, p.header = TagHeader.request tag (UInt32.ofNat (4 * 2)) := by
      intro p hp
      rcases List.mem_cons.1 hp with rfl | hp
      · exact ⟨rfl, .clockState, rfl⟩
      · rw [List.mem_singleton.1 hp]
        exact ⟨rfl, .clockRate, rfl⟩
    obtain ⟨-, hcall⟩ := posts_well_formed .unlimited 1
      ((propertyCallMulti .unlimited twoQuestions).record readyPort 1).transcript
    obtain ⟨size, words, hsize, rfl, hposts, -⟩ := hcall twoQuestions 2 _ hbody (by decide)
      (Tree.runs_record readyPort _ [])
    rcases hposts with ⟨hnone, -⟩ | ⟨-, addr, -, hhandovers⟩
    · exact absurd (.tail _ (.head _)) hnone
    · exact ⟨size, hsize, addr, hhandovers⟩

end Mailbox

end Bcm2835
