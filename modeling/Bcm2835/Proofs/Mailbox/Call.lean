import Bcm2835.Proofs.Mailbox.Exchange

/-! What a call does to the port, whatever the port answers: it posts one word as soon as there is
room, and takes words up to the first one that equals it. On a port whose first echo is known, the
call succeeds exactly under the budgets that pay for all the waiting up to there. -/

namespace Bcm2835

open Program Transcript

namespace Mailbox

open MailboxPort

/-! ## The word -/

theorem toNat_compose (channel : Channel) (addr : UInt32) :
    (compose channel addr).toNat = (addr.toNat &&& 0xFFFFFFF0) ||| channel.number.toNat := by
  cases channel <;> exact UInt32.toNat_or ..

theorem compose_and (channel : Channel) (addr : UInt32) :
    compose channel addr &&& 0xF = channel.number := by
  have h : channel.number.toNat &&& 0xF = channel.number.toNat := by cases channel <;> rfl
  apply UInt32.toNat_inj.1
  rw [UInt32.toNat_and, toNat_compose, show (0xF : UInt32).toNat = 0xF from rfl,
    Nat.and_or_distrib_right, Nat.and_assoc, h]
  simp

theorem compose_shiftRight (channel : Channel) (addr : UInt32) :
    compose channel addr >>> 4 = addr >>> 4 := by
  have h : channel.number.toNat >>> 4 = 0 := by cases channel <;> rfl
  have hlt : addr.toNat >>> 4 < 2 ^ 28 := by
    have := addr.toNat_lt
    omega
  apply UInt32.toNat_inj.1
  rw [UInt32.toNat_shiftRight, UInt32.toNat_shiftRight, toNat_compose,
    show (4 : UInt32).toNat % 32 = 4 from rfl, Nat.shiftRight_or_distrib,
    Nat.shiftRight_and_distrib, h, Nat.or_zero]
  exact Nat.and_two_pow_sub_one_of_lt_two_pow hlt

theorem number_injective {c c' : Channel} (h : c.number = c'.number) : c = c' := by
  cases c <;> cases c' <;> first | rfl | exact absurd h (by decide)

/-- The low four bits and the others make up a word. -/
theorem word_ext {w w' : UInt32} (hl : w &&& 0xF = w' &&& 0xF) (hh : w >>> 4 = w' >>> 4) :
    w = w' := by
  have hl := congrArg UInt32.toNat hl
  have hh := congrArg UInt32.toNat hh
  simp only [UInt32.toNat_and, UInt32.toNat_shiftRight, UInt32.reduceToNat, Nat.reduceMod,
    Nat.and_two_pow_sub_one_eq_mod _ 4] at hl hh
  apply UInt32.toNat_inj.1
  omega

theorem compose_eq_compose {c c' : Channel} {addr addr' : UInt32} :
    compose c addr = compose c' addr' ↔ c = c' ∧ addr >>> 4 = addr' >>> 4 := by
  constructor
  · intro h
    constructor
    · apply number_injective
      rw [← compose_and c addr, h, compose_and]
    · rw [← compose_shiftRight c, h, compose_shiftRight]
  · rintro ⟨rfl, h⟩
    apply word_ext
    · rw [compose_and, compose_and]
    · rw [compose_shiftRight, compose_shiftRight, h]

/-! ## The run -/

/-- What posting a word does to the port. -/
def transmission (full : Nat) (word : UInt32) : List (Access MailboxPort) :=
  List.replicate full (fullPoll true) ++ [fullPoll false, given word]

variable {limit : Nat} {word : UInt32} {T : Transcript MailboxPort}

/-- Without a budget, posting a word and waiting for its echo ends with the echo. Any other run was
looked at or given up before. The words that were thrown away are reported, and nothing else. -/
theorem runs_deliver_awaitEcho {s : Stop Unit}
    (h : ((deliver (write word) >>= fun _ => awaitEcho word) limit).Runs T s) :
    (∃ full, T.accesses = List.replicate full (fullPoll true) ∧ T.reports = [] ∧
        (s = .waiting ∨ s = .ended .stalled)) ∨
      ∃ full, ∃ others : List Arrival, (∀ a ∈ others, a.word ≠ word) ∧
        T.reports = others.map (fun a => .discarded a.word word) ∧
        ((∃ waits, T.accesses = transmission full word ++ others.flatMap Arrival.accesses ++
              Arrival.accesses ⟨waits, word⟩ ∧ s = .ended (.ok ())) ∨
          (∃ empties, T.accesses = transmission full word ++ others.flatMap Arrival.accesses ++
              List.replicate empties (emptyPoll true)) ∧ (s = .waiting ∨ s = .ended .stalled)) := by
  rcases Tree.runs_bind.1 h with ⟨U, V, x, rfl, hU, hV⟩ | ⟨s₀, hT, hs⟩
  · obtain ⟨full, ⟨-, -, h⟩ | ⟨-, ⟨-, h⟩ | ⟨W, rfl, hW⟩⟩⟩ := runs_deliver.1 hU
    · cases h
    · cases h
    obtain ⟨rfl, -⟩ := runs_write.1 hW
    obtain ⟨others, ho, ⟨waits, rfl, rfl⟩ | ⟨⟨empties, hV⟩, hn, hs⟩⟩ := runs_rounds_takeEcho hV
    · refine .inr ⟨full, others, ho, by simp, .inl ⟨waits, ?_, rfl⟩⟩
      simp [transmission]
    · refine .inr ⟨full, others, ho, by simp [hn], .inr ⟨⟨empties, ?_⟩, hs⟩⟩
      simp [transmission, hV]
  · obtain ⟨full, ⟨-, rfl, rfl⟩ | ⟨-, ⟨rfl, rfl⟩ | ⟨W, rfl, hW⟩⟩⟩ := runs_deliver.1 hT
    · cases hs
      exact .inl ⟨full, by simp, by simp, .inr rfl⟩
    · cases hs
      exact .inl ⟨full + 1, by simp [List.replicate_succ'], by simp, .inl rfl⟩
    · obtain ⟨-, rfl⟩ := runs_write.1 hW
      cases hs

/-- The run in which there is room after `full` polls and then these words come. -/
theorem deliver_awaitEcho_runs {full waits : Nat} {others : List Arrival}
    (ho : ∀ a ∈ others, a.word ≠ word) (hl : full + Arrival.cost others + waits < limit) :
    ((deliver (write word) >>= fun _ => awaitEcho word) limit).Runs
      (refusals full ++ [.access (fullPoll false), .access (given word)] ++
        (others.flatMap (Arrival.discarded word) ++ Arrival.transcript ⟨waits, word⟩))
      (.ended (.ok ())) := by
  have hd : (deliver (write word) limit).Runs
      (refusals full ++ [.access (fullPoll false), .access (given word)]) (.ended (.ok ())) :=
    runs_deliver.2 ⟨full, .inr ⟨by omega, .inr ⟨_, rfl, runs_write.2 ⟨rfl, rfl⟩⟩⟩⟩
  refine hd.bind (rounds_takeEcho_runs ho ?_ (by omega) ?_)
  · intro a ha
    have := Arrival.waits_le_cost ha
    omega
  · have := Arrival.length_le_cost others
    omega

/-- How a call can end without its echo: the budget ran out, or the run was given up. -/
def Unanswered (budget : Budget) (o : Outcome Unit) : Prop :=
  (o = .error .timeout ∧ budget ≠ .unlimited) ∨ o = .stalled

theorem Unanswered.ne_ok {budget : Budget} {o : Outcome Unit} (h : Unanswered budget o) :
    o ≠ .ok () := by
  rcases h with ⟨rfl, -⟩ | rfl <;> simp

variable {budget : Budget} {channel : Channel} {addr : UInt32} {o : Outcome Unit}

theorem call_apply :
    call budget channel addr limit = within budget
      (deliver (write (compose channel addr)) >>= fun _ => awaitEcho (compose channel addr))
      limit := rfl

/-- A run that is looked at before its echo came is cut short there, or was given up. -/
theorem unanswered_of_cut {left : Budget} {k : Nat} {s : Stop Unit}
    (hs : s = .waiting ∨ s = .ended .stalled) (hb : budget.spend? k = some left)
    (h : .ended o = s.cut left) : Unanswered budget o := by
  rcases hs with rfl | rfl
  · cases hl : left.take? with
    | none =>
      rw [Stop.cut, if_pos hl] at h
      refine .inl ⟨Stop.ended.inj h, ?_⟩
      rintro rfl
      obtain rfl : .unlimited = left := by simpa using hb
      cases hl
    | some left' =>
      rw [Stop.cut, if_neg (by simp [hl])] at h
      cases h
  · exact .inr (Stop.ended.inj h)

/-- The three ways a call ends: it finds no room for its word, it takes the echo of the word, or it
takes other words only. -/
theorem runs_call (h : (call budget channel addr limit).Runs T (.ended o)) :
    (∃ full, T.accesses = List.replicate full (fullPoll true) ∧ Unanswered budget o) ∨
      ∃ full, ∃ others : List Arrival, (∀ a ∈ others, a.word ≠ compose channel addr) ∧
        ((∃ waits, T.accesses = transmission full (compose channel addr) ++
              others.flatMap Arrival.accesses ++ Arrival.accesses ⟨waits, compose channel addr⟩ ∧
              o = .ok ()) ∨
          (∃ empties, T.accesses = transmission full (compose channel addr) ++
              others.flatMap Arrival.accesses ++ List.replicate empties (emptyPoll true)) ∧
            Unanswered budget o) := by
  rw [call_apply] at h
  obtain ⟨s, left, hr, hb, ho⟩ := runs_within.1 h
  rcases runs_deliver_awaitEcho hr with
    ⟨full, hT, -, hs⟩ | ⟨full, others, hne, -, ⟨waits, hT, rfl⟩ | ⟨hT, hs⟩⟩
  · exact .inl ⟨full, hT, unanswered_of_cut hs hb ho⟩
  · exact .inr ⟨full, others, hne, .inl ⟨waits, hT, Stop.ended.inj ho⟩⟩
  · exact .inr ⟨full, others, hne, .inr ⟨hT, unanswered_of_cut hs hb ho⟩⟩

/-- On a port that is full for `full` polls and then has these words, without a budget. -/
theorem record_deliver_awaitEcho {hw : Behaviour MailboxPort} {full waits : Nat}
    {others : List Arrival}
    (hhw : hw.Answers [] (transmission full word ++ others.flatMap Arrival.accesses ++
      Arrival.accesses ⟨waits, word⟩))
    (ho : ∀ a ∈ others, a.word ≠ word) (hl : full + Arrival.cost others + waits < limit) :
    ((deliver (write word) >>= fun _ => awaitEcho word).record hw limit).outcome = .ok () ∧
      ((deliver (write word) >>= fun _ => awaitEcho word).record hw limit).ticks =
        full + Arrival.cost others + waits := by
  have hA : hw.Answers [] (accesses (refusals full ++
      [.access (fullPoll false), .access (given word)] ++
      (others.flatMap (Arrival.discarded word) ++ Arrival.transcript ⟨waits, word⟩))) := by
    simpa [transmission] using hhw
  rw [record, Tree.record_eq_of_runs (deliver_awaitEcho_runs ho hl) hA]
  refine ⟨rfl, ?_⟩
  simp [Record.ticks, Nat.add_assoc]

/-- The word of a call is made up of the channel and the upper bits of the address, and nothing
else has the same word. -/
structure Composes (channel : Channel) (addr word : UInt32) : Prop where
  low : word &&& 0xF = channel.number
  high : word >>> 4 = addr >>> 4
  only : ∀ channel' addr',
    word = compose channel' addr' ↔ channel = channel' ∧ addr >>> 4 = addr' >>> 4

/-- What a call for a word does that ends so. It posts its word behind the first poll that finds
room, and takes words, each behind a poll that finds one, up to the first that equals its own. -/
inductive CallConduct (word : UInt32) : List (Access MailboxPort) → Outcome Unit → Prop
  | crowded {o : Outcome Unit} (full : Nat) : o ≠ .ok () →
    CallConduct word (List.replicate full (fullPoll true)) o
  | posted {o : Outcome Unit} (full empties : Nat) (words : List Arrival) :
    (∀ a ∈ words.dropLast, a.word ≠ word) →
    (o = .ok () ↔ words.getLast?.map Arrival.word = some word) → (o = .ok () → empties = 0) →
    CallConduct word (List.replicate full (fullPoll true) ++ [fullPoll false, given word] ++
      words.flatMap Arrival.accesses ++ List.replicate empties (emptyPoll true)) o

theorem runs_conduct (h : (call budget channel addr limit).Runs T (.ended o)) :
    (o = .ok () ∨ Unanswered budget o) ∧ CallConduct (compose channel addr) T.accesses o := by
  rcases runs_call h with
    ⟨full, hT, ho⟩ | ⟨full, others, hne, ⟨waits, hT, rfl⟩ | ⟨⟨empties, hT⟩, ho⟩⟩
  · exact ⟨.inr ho, hT ▸ .crowded full ho.ne_ok⟩
  · have hposted : CallConduct (compose channel addr) _ (.ok ()) :=
      .posted full 0 (others ++ [⟨waits, compose channel addr⟩]) (by simpa using hne) (by simp)
        fun _ => rfl
    refine ⟨.inl rfl, ?_⟩
    rw [hT]
    simpa [transmission] using hposted
  · refine ⟨.inr ho, hT ▸ .posted full empties others ?_ ?_ ?_⟩
    · exact fun a ha => hne a (List.dropLast_subset _ ha)
    · refine iff_of_false ho.ne_ok fun h => ?_
      obtain ⟨a, ha, hw⟩ := Option.map_eq_some_iff.1 h
      exact hne a (List.mem_of_getLast? ha) hw
    · exact fun h => absurd h ho.ne_ok

/-- A port that is full for `full` polls and then has these words in front of the echo, and the echo
after `last` polls that find nothing. -/
structure Echoing (hw : Behaviour MailboxPort) (word : UInt32) (full : Nat) (others : List Arrival)
    (last : Nat) : Prop where
  answers : hw.Answers [] (List.replicate full (fullPoll true) ++ [fullPoll false, given word] ++
    others.flatMap Arrival.accesses ++ Arrival.accesses ⟨last, word⟩)
  others_ne : ∀ a ∈ others, a.word ≠ word

/-- The call succeeds under the budgets of so many units, and times out under a smaller one. -/
structure SucceedsFrom (units : Nat) (hw : Behaviour MailboxPort) (channel : Channel)
    (addr : UInt32) (limit : Nat) : Prop where
  unlimited : ((call .unlimited channel addr).record hw limit).outcome = .ok ()
  bounded : ∀ n, ((call (.bounded n) channel addr).record hw limit).outcome =
    if units ≤ n then .ok () else .error .timeout

theorem Echoing.succeedsFrom {hw : Behaviour MailboxPort} {full last : Nat} {others : List Arrival}
    (h : Echoing hw (compose channel addr) full others last)
    (hl : full + ((others.map Arrival.waits).sum + last) + others.length < limit) :
    SucceedsFrom (full + ((others.map Arrival.waits).sum + last) + others.length) hw channel addr
      limit := by
  have hcost : full + Arrival.cost others + last =
      full + ((others.map Arrival.waits).sum + last) + others.length := by
    rw [Arrival.cost]
    omega
  obtain ⟨ho, ht⟩ := record_deliver_awaitEcho h.answers h.others_ne (hcost ▸ hl)
  rw [hcost] at ht
  refine ⟨?_, fun n => ?_⟩
  · exact (congrArg Record.outcome record_within_unlimited).trans ho
  · split
    · next hn =>
      exact (congrArg Record.outcome (record_within_of_le (ht.symm ▸ hn))).trans ho
    · next hn =>
      obtain ⟨U, V, -, -, h⟩ := record_within_of_lt (ht.symm ▸ Nat.lt_of_not_le hn)
      exact congrArg Record.outcome h

/-- The word a call posts, what a call does on any port, and what it costs: a unit for each poll
that finds the port full, for each that finds it empty, and for each word in front of the echo. -/
theorem call_takes_first_echo (channel : Channel) (addr : UInt32) :
    Composes channel addr (compose channel addr) ∧
    (∀ budget limit T o, (call budget channel addr limit).Runs T (.ended o) →
      (o = .ok () ∨ Unanswered budget o) ∧ CallConduct (compose channel addr) T.accesses o) ∧
    ∀ hw full others last, Echoing hw (compose channel addr) full others last →
      ∀ limit > full + ((others.map Arrival.waits).sum + last) + others.length,
        SucceedsFrom (full + ((others.map Arrival.waits).sum + last) + others.length) hw channel
          addr limit := by
  refine ⟨⟨compose_and .., compose_shiftRight .., fun _ _ => compose_eq_compose⟩, ?_, ?_⟩
  · exact fun _ _ _ _ => runs_conduct
  · exact fun _ _ _ _ h _ => h.succeedsFrom

/-- A port that is full at the first look and empty at the first look, and has a word for somebody
else before the echo. -/
def busyPort : Behaviour MailboxPort :=
  port (fun past => past.isEmpty) (fun past => past.length == 3)
    fun past => if past.length = 5 then 0x28 else 0x18

theorem call_takes_first_echo_busyPort :
    Echoing busyPort (compose .property 0x10) 1 [⟨1, 0x28⟩] 0 ∧
    ((call (.bounded 3) .property 0x10).record busyPort 4).outcome = .ok () ∧
    ((call (.bounded 2) .property 0x10).record busyPort 4).outcome = .error .timeout ∧
    CallConduct (compose .property 0x10)
      ((call (.bounded 3) .property 0x10).record busyPort 4).transcript.accesses (.ok ()) := by
  obtain ⟨-, hruns, hcost⟩ := call_takes_first_echo .property 0x10
  have hechoing : Echoing busyPort (compose .property 0x10) 1 [⟨1, 0x28⟩] 0 :=
    ⟨⟨rfl, rfl, rfl, rfl, rfl, rfl, rfl, rfl, trivial⟩, by decide⟩
  have hbounded := (hcost busyPort 1 [⟨1, 0x28⟩] 0 hechoing 4 (by decide)).bounded
  have hok : ((call (.bounded 3) .property 0x10).record busyPort 4).outcome = .ok () := hbounded 3
  obtain ⟨-, hcalls⟩ :=
    hruns _ _ _ _ (Tree.runs_record busyPort (call (.bounded 3) .property 0x10 4) [])
  exact ⟨hechoing, hok, hbounded 2, hok ▸ hcalls⟩

end Mailbox

end Bcm2835
