import Mathlib.Algebra.GroupWithZero.Nat
import Bcm2835.Mailbox.Calls
import Bcm2835.Proofs.Metering
import Bcm2835.Proofs.Waiting

/-! What a word to the firmware and the wait for its echo do to the port, apart from any budget. The
words that come in are grouped with the polls that waited for them (`Arrival`). The wait for an echo
takes arrivals until one carries the wanted word: `runs_rounds_takeEcho` reads this off any run, and
`rounds_takeEcho_runs` builds the run for given arrivals. -/

namespace Bcm2835

open Program Transcript

namespace MailboxPort

/-- A look at whether the mailbox to the firmware is full. -/
abbrev fullPoll (full : Bool) : Access MailboxPort := ⟨.isFull, full⟩

/-- A look at whether the mailbox from the firmware is empty. -/
abbrev emptyPoll (empty : Bool) : Access MailboxPort := ⟨.isEmpty, empty⟩

abbrev taken (word : UInt32) : Access MailboxPort := ⟨.read, word⟩

abbrev given (word : UInt32) : Access MailboxPort := ⟨.write word, ()⟩

/-- A flag keeps a wait going as long as it is up. -/
theorem not_eq_false_iff : ∀ flag : Bool, (!flag) = false ↔ flag = true := by decide

/-- A port given by its flags and by the words that come in. -/
def port (full empty : List (Access MailboxPort) → Bool)
    (word : List (Access MailboxPort) → UInt32) : Behaviour MailboxPort
  | past, .isFull => full past
  | past, .isEmpty => empty past
  | past, .read => word past
  | _, .write _ | _, .post .. => ()
  | _, .busAddress => .ok 0x10
  | _, .collect size => Vector.replicate size 0

theorem asks_hasRoom : (not <$> isFull).Asks Request.isFull not := fun _ => rfl

theorem asks_hasWord : (not <$> isEmpty).Asks Request.isEmpty not := fun _ => rfl

end MailboxPort

namespace Mailbox

open MailboxPort

/-- A word that came in, after polls that found the mailbox empty. -/
structure Arrival where
  waits : Nat
  word : UInt32
  deriving DecidableEq, Repr

namespace Arrival

def accesses (a : Arrival) : List (Access MailboxPort) :=
  List.replicate a.waits (emptyPoll true) ++ [emptyPoll false, taken a.word]

/-- The units of waiting for words that are not the wanted one: a unit for every poll that found
nothing, and a unit for every word. -/
def cost (others : List Arrival) : Nat := (others.map waits).sum + others.length

@[simp] theorem cost_nil : cost [] = 0 := rfl

@[simp] theorem cost_cons (a : Arrival) (others : List Arrival) :
    cost (a :: others) = a.waits + 1 + cost others := by
  simp only [cost, List.map_cons, List.sum_cons, List.length_cons]
  omega

theorem length_le_cost (others : List Arrival) : others.length ≤ cost others :=
  Nat.le_add_left ..

theorem waits_le_cost {a : Arrival} {others : List Arrival} (h : a ∈ others) :
    a.waits ≤ cost others := by
  induction others with
  | nil => cases h
  | cons b others ih =>
    rw [cost_cons]
    rcases List.mem_cons.1 h with rfl | h
    · omega
    · have := ih h
      omega

end Arrival

variable {limit : Nat} {wanted : UInt32} {T : Transcript MailboxPort}

/-- Polls that found the mailbox full, each with its unit of waiting. -/
def refusals (full : Nat) : Transcript MailboxPort :=
  missed (I := MailboxPort) (r := .isFull) (List.replicate full true)

/-- Polls that found the mailbox empty, each with its unit of waiting. -/
def vacancies (empties : Nat) : Transcript MailboxPort :=
  missed (I := MailboxPort) (r := .isEmpty) (List.replicate empties true)

@[simp] theorem ticks_refusals (full : Nat) : ticks (refusals full) = full :=
  (ticks_missed _).trans List.length_replicate

@[simp] theorem accesses_refusals (full : Nat) :
    accesses (refusals full) = List.replicate full (fullPoll true) :=
  (accesses_missed _).trans List.map_replicate

@[simp] theorem reports_refusals (full : Nat) : reports (refusals full) = [] := reports_missed _

@[simp] theorem ticks_vacancies (empties : Nat) : ticks (vacancies empties) = empties :=
  (ticks_missed _).trans List.length_replicate

@[simp] theorem accesses_vacancies (empties : Nat) :
    accesses (vacancies empties) = List.replicate empties (emptyPoll true) :=
  (accesses_missed _).trans List.map_replicate

@[simp] theorem reports_vacancies (empties : Nat) : reports (vacancies empties) = [] :=
  reports_missed _

namespace Arrival

def transcript (a : Arrival) : Transcript MailboxPort :=
  vacancies a.waits ++ [.access (emptyPoll false), .access (taken a.word)]

/-- The arrival of a word that is thrown away. -/
def discarded (wanted : UInt32) (a : Arrival) : Transcript MailboxPort :=
  a.transcript ++ [.report (.discarded a.word wanted), .tick]

@[simp] theorem accesses_transcript (a : Arrival) : a.transcript.accesses = a.accesses := by
  simp [transcript, accesses]

@[simp] theorem ticks_transcript (a : Arrival) : a.transcript.ticks = a.waits := by
  simp [transcript]

@[simp] theorem reports_transcript (a : Arrival) : a.transcript.reports = [] := by
  simp [transcript]

@[simp] theorem accesses_discarded (others : List Arrival) :
    Transcript.accesses (others.flatMap (discarded wanted)) = others.flatMap accesses := by
  induction others with
  | nil => rfl
  | cons a others ih => simp [discarded, ih]

@[simp] theorem ticks_discarded (others : List Arrival) :
    ticks (others.flatMap (discarded wanted)) = cost others := by
  induction others with
  | nil => rfl
  | cons a others ih =>
    simp only [List.flatMap_cons, ticks_append, ih, cost_cons, discarded, ticks_transcript,
      ticks_report, ticks_tick, ticks_nil]

/-- Every word that is thrown away is reported. -/
@[simp] theorem reports_discarded (others : List Arrival) :
    reports (others.flatMap (discarded wanted)) =
      others.map fun a => .discarded a.word wanted := by
  induction others with
  | nil => rfl
  | cons a others ih => simp [discarded, ih]

end Arrival

@[simp] theorem runs_write {word : UInt32} {s : Stop Unit} :
    (write word limit).Runs T s ↔ T = [.access (given word)] ∧ s = .ended (.ok ()) := by
  constructor
  · intro h
    obtain ⟨_, U, rfl, hU⟩ := Tree.runs_request.1 h
    obtain ⟨rfl, rfl⟩ := Tree.runs_halt.1 hU
    exact ⟨rfl, rfl⟩
  · rintro ⟨rfl, rfl⟩
    exact Tree.runs_request.2 ⟨(), _, rfl, .halt _⟩

/-- What is handed over goes out right behind the first poll that finds room. -/
theorem runs_deliver {handOver : Program MailboxPort Unit} {s : Stop Unit} :
    (deliver handOver limit).Runs T s ↔
      ∃ full, (full = limit ∧ T = refusals full ∧ s = .ended .stalled) ∨
        full < limit ∧
          ((T = refusals full ++ [.access (fullPoll true)] ∧ s = .waiting) ∨
            ∃ U, T = refusals full ++ .access (fullPoll false) :: U ∧
              (handOver limit).Runs U s) := by
  refine (asks_hasRoom.runs_waitUntil_bind not_eq_false_iff).trans ?_
  refine exists_congr fun full => or_congr_right (and_congr_right fun _ => or_congr_right ?_)
  constructor
  · rintro ⟨a, U, ha, rfl, hU⟩
    obtain rfl : a = false := eq_false_of_ne_true ha
    exact ⟨U, rfl, hU⟩
  · rintro ⟨U, rfl, hU⟩
    exact ⟨false, U, Bool.false_ne_true, rfl, hU⟩

theorem runs_nextWord {s : Stop UInt32} :
    (nextWord limit).Runs T s ↔
      ∃ empties, (empties = limit ∧ T = vacancies empties ∧ s = .ended .stalled) ∨
        empties < limit ∧
          ((T = vacancies empties ++ [.access (emptyPoll true)] ∧ s = .waiting) ∨
            ∃ word, T = vacancies empties ++
              [.access (emptyPoll false), .access (taken word)] ∧ s = .ended (.ok word)) := by
  refine (asks_hasWord.runs_waitUntil_bind not_eq_false_iff).trans ?_
  refine exists_congr fun full => or_congr_right (and_congr_right fun _ => or_congr_right ?_)
  constructor
  · rintro ⟨a, U, ha, rfl, hU⟩
    obtain rfl : a = false := eq_false_of_ne_true ha
    obtain ⟨word, V, rfl, hV⟩ := Tree.runs_request.1 hU
    obtain ⟨rfl, rfl⟩ := Tree.runs_halt.1 hV
    exact ⟨word, rfl, rfl⟩
  · rintro ⟨word, rfl, rfl⟩
    exact ⟨false, _, Bool.false_ne_true, rfl, Tree.runs_request.2 ⟨word, _, rfl, .halt _⟩⟩

theorem takeEcho_apply :
    takeEcho wanted limit = (nextWord limit).bind fun word =>
      if word = wanted then .halt (.ok (.done ()))
      else .report (.discarded word wanted) (.tick (.halt (.ok (.again ())))) := by
  refine congrArg (Tree.bind (nextWord limit)) (funext fun word => ?_)
  by_cases h : word = wanted
  · simp only [h, if_true]; rfl
  · simp only [h, if_false]; rfl

/-- One word is taken. The wanted one ends the wait, another one is thrown away. -/
theorem runs_takeEcho {s : Stop (Step Unit Unit)} :
    (takeEcho wanted limit).Runs T s ↔
      ∃ empties, (empties = limit ∧ T = vacancies empties ∧ s = .ended .stalled) ∨
        empties < limit ∧
          ((T = vacancies empties ++ [.access (emptyPoll true)] ∧ s = .waiting) ∨
            (T = Arrival.transcript ⟨empties, wanted⟩ ∧ s = .ended (.ok (.done ()))) ∨
            ∃ word, word ≠ wanted ∧
              ((T = Arrival.transcript ⟨empties, word⟩ ++ [.report (.discarded word wanted)] ∧
                  s = .waiting) ∨
                (T = Arrival.discarded wanted ⟨empties, word⟩ ∧
                  s = .ended (.ok (.again ()))))) := by
  rw [takeEcho_apply, Tree.runs_bind]
  constructor
  · rintro (⟨U, V, word, rfl, hU, hV⟩ | ⟨s₀, hT, hs⟩)
    · obtain ⟨empties, ⟨-, -, h⟩ | ⟨hl, ⟨-, h⟩ | ⟨w, rfl, h⟩⟩⟩ := runs_nextWord.1 hU
      · cases h
      · cases h
      cases h
      refine ⟨empties, .inr ⟨hl, .inr ?_⟩⟩
      by_cases h : word = wanted
      · rw [if_pos h, Tree.runs_halt] at hV
        obtain ⟨rfl, rfl⟩ := hV
        exact .inl ⟨by simp [Arrival.transcript, h], rfl⟩
      · rw [if_neg h, Tree.runs_report] at hV
        obtain ⟨W, rfl, hW⟩ := hV
        refine .inr ⟨word, h, ?_⟩
        rcases Tree.runs_tick.1 hW with ⟨rfl, rfl⟩ | ⟨X, rfl, hX⟩
        · exact .inl ⟨rfl, rfl⟩
        · obtain ⟨rfl, rfl⟩ := Tree.runs_halt.1 hX
          exact .inr ⟨by simp [Arrival.discarded, Arrival.transcript], rfl⟩
    · obtain ⟨empties, ⟨hl, rfl, rfl⟩ | ⟨hl, ⟨rfl, rfl⟩ | ⟨w, rfl, rfl⟩⟩⟩ := runs_nextWord.1 hT
      · cases hs
        exact ⟨empties, .inl ⟨hl, rfl, rfl⟩⟩
      · cases hs
        exact ⟨empties, .inr ⟨hl, .inl ⟨rfl, rfl⟩⟩⟩
      · cases hs
  · have word (empties : Nat) (w : UInt32) (hl : empties < limit) :
        (nextWord limit).Runs (Arrival.transcript ⟨empties, w⟩) (.ended (.ok w)) :=
      runs_nextWord.2 ⟨empties, .inr ⟨hl, .inr ⟨w, rfl, rfl⟩⟩⟩
    rintro ⟨empties, ⟨rfl, rfl, rfl⟩ | ⟨hl, ⟨rfl, rfl⟩ | ⟨rfl, rfl⟩ | ⟨w, hw, h⟩⟩⟩
    · exact .inr ⟨_, runs_nextWord.2 ⟨_, .inl ⟨rfl, rfl, rfl⟩⟩, rfl⟩
    · exact .inr ⟨_, runs_nextWord.2 ⟨_, .inr ⟨hl, .inl ⟨rfl, rfl⟩⟩⟩, rfl⟩
    · refine .inl ⟨_, [], wanted, by simp, word empties wanted hl, ?_⟩
      rw [if_pos rfl]
      exact .halt _
    · refine .inl ⟨_, T.drop (Arrival.transcript ⟨empties, w⟩).length, w, ?_, word empties w hl, ?_⟩
      · rcases h with ⟨rfl, -⟩ | ⟨rfl, -⟩ <;> simp [Arrival.discarded]
      · rw [if_neg hw]
        rcases h with ⟨rfl, rfl⟩ | ⟨rfl, rfl⟩
        · simp
        · simp [Arrival.discarded]

/-- Words are thrown away until the wanted one comes, or until the run is looked at or given up
while it waits for a word or has thrown one away. `awaitEcho` is as many rounds as the limit
allows. -/
theorem runs_rounds_takeEcho {n : Nat} {s : Stop Unit}
    (h : (Tree.rounds (fun _ => takeEcho wanted limit) n ()).Runs T s) :
    ∃ others : List Arrival, (∀ a ∈ others, a.word ≠ wanted) ∧
      ((∃ waits, T = others.flatMap (Arrival.discarded wanted) ++
            Arrival.transcript ⟨waits, wanted⟩ ∧ s = .ended (.ok ())) ∨
        (∃ empties, T.accesses = others.flatMap Arrival.accesses ++
            List.replicate empties (emptyPoll true)) ∧
          T.reports = others.map (fun a => .discarded a.word wanted) ∧
          (s = .waiting ∨ s = .ended .stalled)) := by
  -- each round may wait with the whole limit, only the number of rounds goes down
  induction n generalizing T with
  | zero =>
    obtain ⟨rfl, rfl⟩ := Tree.runs_rounds_zero.1 h
    exact ⟨[], by simp, .inr ⟨⟨0, rfl⟩, rfl, .inr rfl⟩⟩
  | succ n ih =>
    rcases Tree.runs_rounds_succ.1 h with ⟨a, hT, rfl⟩ | ⟨U, V, x, rfl, hU, hV⟩ | ⟨s₀, hT, hs⟩
    · obtain ⟨empties, ⟨-, -, h⟩ | ⟨-, ⟨-, h⟩ | ⟨rfl, -⟩ | ⟨w, -, ⟨-, h⟩ | ⟨-, h⟩⟩⟩⟩ :=
        runs_takeEcho.1 hT
      · cases h
      · cases h
      · exact ⟨[], by simp, .inl ⟨empties, rfl, rfl⟩⟩
      · cases h
      · cases h
    · obtain ⟨empties, ⟨-, -, h⟩ | ⟨-, ⟨-, h⟩ | ⟨-, h⟩ | ⟨w, hw, ⟨-, h⟩ | ⟨rfl, -⟩⟩⟩⟩ :=
        runs_takeEcho.1 hU
      · cases h
      · cases h
      · cases h
      · cases h
      · obtain ⟨others, ho, h⟩ := ih hV
        refine ⟨⟨empties, w⟩ :: others, by simpa using ⟨hw, ho⟩, ?_⟩
        rcases h with ⟨waits, rfl, rfl⟩ | ⟨⟨rest, hr⟩, hn, hs⟩
        · exact .inl ⟨waits, by simp, rfl⟩
        · exact .inr ⟨⟨rest, by simp [Arrival.discarded, hr]⟩, by simp [Arrival.discarded, hn], hs⟩
    · obtain ⟨empties, ⟨-, rfl, rfl⟩ | ⟨-, ⟨rfl, rfl⟩ | ⟨-, rfl⟩ |
        ⟨w, hw, ⟨rfl, rfl⟩ | ⟨-, rfl⟩⟩⟩⟩ := runs_takeEcho.1 hT
      · cases hs
        exact ⟨[], by simp, .inr ⟨⟨empties, by simp⟩, by simp, .inr rfl⟩⟩
      · cases hs
        exact ⟨[], by simp, .inr ⟨⟨empties + 1, by simp [List.replicate_succ']⟩, by simp, .inl rfl⟩⟩
      · cases hs
      · cases hs
        exact ⟨[⟨empties, w⟩], by simpa using hw, .inr ⟨⟨0, by simp⟩, by simp, .inl rfl⟩⟩
      · cases hs

/-- The run in which these words come, if the limit leaves enough rounds for the polls before each
of them and for the words. -/
theorem rounds_takeEcho_runs {n : Nat} {others : List Arrival} {waits : Nat}
    (ho : ∀ a ∈ others, a.word ≠ wanted) (hl : ∀ a ∈ others, a.waits < limit)
    (hw : waits < limit) (hn : others.length < n) :
    (Tree.rounds (fun _ => takeEcho wanted limit) n ()).Runs
      (others.flatMap (Arrival.discarded wanted) ++ Arrival.transcript ⟨waits, wanted⟩)
      (.ended (.ok ())) := by
  induction others generalizing n with
  | nil =>
    obtain ⟨n, rfl⟩ := Nat.exists_eq_succ_of_ne_zero (Nat.ne_of_gt hn)
    refine Tree.runs_rounds_succ.2 (.inl ⟨(), ?_, rfl⟩)
    exact runs_takeEcho.2 ⟨waits, .inr ⟨hw, .inr (.inl ⟨rfl, rfl⟩)⟩⟩
  | cons a others ih =>
    obtain ⟨n, rfl⟩ := Nat.exists_eq_succ_of_ne_zero (Nat.ne_of_gt (Nat.zero_lt_of_lt hn))
    have ha : (takeEcho wanted limit).Runs (a.discarded wanted) (.ended (.ok (.again ()))) :=
      runs_takeEcho.2 ⟨a.waits, .inr ⟨hl a (by simp), .inr (.inr ⟨a.word, ho a (by simp),
        .inr ⟨rfl, rfl⟩⟩)⟩⟩
    refine Tree.runs_rounds_succ.2 (.inr (.inl ⟨_, _, (), ?_, ha, ih ?_ ?_ ?_⟩))
    · simp
    · exact fun b hb => ho b (by simp [hb])
    · exact fun b hb => hl b (by simp [hb])
    · simpa using hn

end Mailbox

end Bcm2835
