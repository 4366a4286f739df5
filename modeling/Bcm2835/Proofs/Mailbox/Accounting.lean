import Bcm2835.Proofs.Mailbox.Call
import Bcm2835.Proofs.Session

/-! Where the words go. Each word that is read from the mailbox is handed to the caller, or is the
echo a call waits for, or belongs to somebody else, and then it is reported when it is thrown away.
`Account.Balanced` says so of one operation, `words_accounted` of any operations in a row, wherever
they are left. -/

namespace Bcm2835

open Program Transcript

namespace Mailbox

open MailboxPort

/-! ## The words that were read -/

def wordsRead (A : List (Access MailboxPort)) : List UInt32 :=
  A.filterMap fun
    | ⟨.read, word⟩ => some word
    | _ => none

section
variable (A B : List (Access MailboxPort)) (word : UInt32) (flag : Bool)

@[simp] theorem wordsRead_nil : wordsRead [] = [] := rfl
@[simp] theorem wordsRead_taken : wordsRead (taken word :: A) = word :: wordsRead A := rfl
@[simp] theorem wordsRead_given : wordsRead (given word :: A) = wordsRead A := rfl
@[simp] theorem wordsRead_fullPoll : wordsRead (fullPoll flag :: A) = wordsRead A := rfl
@[simp] theorem wordsRead_emptyPoll : wordsRead (emptyPoll flag :: A) = wordsRead A := rfl

@[simp] theorem wordsRead_append : wordsRead (A ++ B) = wordsRead A ++ wordsRead B :=
  List.filterMap_append

@[simp] theorem wordsRead_fullPolls (n : Nat) :
    wordsRead (List.replicate n (fullPoll flag)) = [] := List.filterMap_replicate_of_none rfl

@[simp] theorem wordsRead_emptyPolls (n : Nat) :
    wordsRead (List.replicate n (emptyPoll flag)) = [] := List.filterMap_replicate_of_none rfl

end

theorem wordsRead_flatMap {γ : Type} (l : List γ) (f : γ → List (Access MailboxPort)) :
    wordsRead (l.flatMap f) = l.flatMap fun a => wordsRead (f a) := List.filterMap_flatMap ..

@[simp] theorem wordsRead_arrival (a : Arrival) : wordsRead a.accesses = [a.word] := by
  simp [Arrival.accesses]

@[simp] theorem wordsRead_arrivals (others : List Arrival) :
    wordsRead (others.flatMap Arrival.accesses) = others.map Arrival.word := by
  rw [wordsRead_flatMap, List.map_eq_flatMap]
  simp

/-! ## One operation -/

/-- What can be done with the mailbox. -/
inductive Action where
  | send (budget : Budget) (channel : Channel) (addr : UInt32)
  | receive (budget : Budget)
  | call (budget : Budget) (channel : Channel) (addr : UInt32)
  deriving DecidableEq, Repr

namespace Action

def program : Action → Program MailboxPort (Reply UInt32)
  | send budget channel addr => (fun _ => .done) <$> Mailbox.send budget channel addr
  | receive budget => .word <$> Mailbox.receive budget
  | call budget channel addr => (fun _ => .done) <$> Mailbox.call budget channel addr

/-- The word an operation compares others with. -/
def wanted? : Action → Option UInt32
  | send .. | receive _ => none
  | call _ channel addr => some (compose channel addr)

/-- The words that were read for an operation that ended so. -/
def accepted (a : Action) : Option (Except Error (Reply UInt32)) → List UInt32
  | some (.ok (.word word)) => [word]
  | some (.ok _) => a.wanted?.toList
  | some (.error _) | none => []

/-- The notice of each word that was thrown away names the word it was compared with. -/
def notices (a : Action) (discarded : List UInt32) : List Notice :=
  a.wanted?.toList.flatMap fun wanted => discarded.map fun word => .discarded word wanted

theorem accepted_of_fruitless {s : Stop (Reply UInt32)} (h : s.Fruitless) (a : Action) :
    a.accepted s.result? = [] := by
  rcases h with h | h
  · rw [h]
    rfl
  · rw [h]
    rfl

end Action

variable {limit : Nat}

/-- An operation with the words it threw away. -/
structure Account (limit : Nat) extends Episode Action.program limit where
  discarded : List UInt32

namespace Account

/-- The words that are accounted for. -/
def words (a : Account limit) : List UInt32 := a.discarded ++ a.action.accepted a.result?

def notices (a : Account limit) : List Notice := a.action.notices a.discarded

/-- The account is true: the operation read these words, and reported those it threw away. -/
structure Balanced (a : Account limit) : Prop where
  discarded_eq_nil : a.action.wanted? = none → a.discarded = []
  discarded_ne : ∀ wanted, a.action.wanted? = some wanted → wanted ∉ a.discarded
  words_eq : wordsRead a.transcript.accesses = a.words
  notices_eq : a.transcript.reports = a.notices

end Account

section
variable {budget : Budget} {channel : Channel} {addr : UInt32} {T : Transcript MailboxPort}

theorem send_reads {s : Stop Unit} (h : (send budget channel addr limit).Runs T s) :
    wordsRead T.accesses = [] ∧ T.reports = [] ∧ (s = .ended (.ok ()) ∨ s.Fruitless) := by
  obtain ⟨s₀, b, hT, -, rfl⟩ := runs_within.1 h
  obtain ⟨full, ⟨-, rfl, rfl⟩ | ⟨-, ⟨rfl, rfl⟩ | ⟨U, rfl, hU⟩⟩⟩ := runs_deliver.1 hT
  · exact ⟨by simp, by simp, .inr (Stop.fruitless_cut rfl b)⟩
  · exact ⟨by simp, by simp, .inr (Stop.fruitless_cut rfl b)⟩
  · obtain ⟨rfl, rfl⟩ := runs_write.1 hU
    exact ⟨by simp, by simp, .inl rfl⟩

/-- A word is read if it is handed on, and only then. -/
theorem receive_reads {s : Stop UInt32} (h : (receive budget limit).Runs T s) :
    T.reports = [] ∧ ((∃ word, s = .ended (.ok word) ∧ wordsRead T.accesses = [word]) ∨
      s.Fruitless ∧ wordsRead T.accesses = []) := by
  obtain ⟨s₀, b, hT, -, rfl⟩ := runs_within.1 h
  obtain ⟨empties, ⟨-, rfl, rfl⟩ | ⟨-, ⟨rfl, rfl⟩ | ⟨word, rfl, rfl⟩⟩⟩ := runs_nextWord.1 hT
  · exact ⟨by simp, .inr ⟨Stop.fruitless_cut rfl b, by simp⟩⟩
  · exact ⟨by simp, .inr ⟨Stop.fruitless_cut rfl b, by simp⟩⟩
  · exact ⟨by simp, .inl ⟨word, rfl, by simp⟩⟩

/-- The words of others are thrown away and reported, wherever the call is left. Its own is the last
that is read, and it is read if the call succeeds. -/
theorem call_reads {s : Stop Unit} (h : (call budget channel addr limit).Runs T s) :
    ∃ discarded : List UInt32, compose channel addr ∉ discarded ∧
      T.reports = discarded.map (fun word => .discarded word (compose channel addr)) ∧
      ((s = .ended (.ok ()) ∧ wordsRead T.accesses = discarded ++ [compose channel addr]) ∨
        s.Fruitless ∧ wordsRead T.accesses = discarded) := by
  rw [call_apply] at h
  obtain ⟨s₀, b, hT, -, rfl⟩ := runs_within.1 h
  rcases runs_deliver_awaitEcho hT with
    ⟨full, hA, hn, hs⟩ | ⟨full, others, hne, hn, hcases⟩
  · have hfruitless := Stop.fruitless_cut (Stop.result?_of_unfinished hs) b
    refine ⟨[], by simp, by simp [hn], .inr ⟨hfruitless, ?_⟩⟩
    simp [hA]
  · have hwanted : compose channel addr ∉ others.map Arrival.word := by
      intro hmem
      obtain ⟨a, ha, hword⟩ := List.mem_map.1 hmem
      exact hne a ha hword
    refine ⟨others.map Arrival.word, hwanted, by simp [hn], ?_⟩
    rcases hcases with ⟨waits, hA, rfl⟩ | ⟨⟨empties, hA⟩, hs⟩
    · exact .inl ⟨rfl, by simp [hA, transmission]⟩
    · refine .inr ⟨Stop.fruitless_cut (Stop.result?_of_unfinished hs) b, ?_⟩
      simp [hA, transmission]

/-- For every operation, wherever it is left, there is a true account. -/
theorem exists_balanced (e : Episode Action.program limit) :
    ∃ a : Account limit, a.toEpisode = e ∧ a.Balanced := by
  obtain ⟨action, T, s, hT⟩ := e
  cases action with
  | send budget channel addr =>
    obtain ⟨s₀, hrun, rfl⟩ := runs_map.1 hT
    obtain ⟨hread, hreports, hs⟩ := send_reads hrun
    refine ⟨⟨⟨_, T, _, hT⟩, []⟩, rfl, fun _ => rfl, (fun _ h => nomatch h), ?_, hreports⟩
    rcases hs with rfl | hs
    · exact hread
    · rw [Account.words, Episode.result?, Action.accepted_of_fruitless (hs.map _)]
      exact hread
  | receive budget =>
    obtain ⟨s₀, hrun, rfl⟩ := runs_map.1 hT
    obtain ⟨hreports, hs⟩ := receive_reads hrun
    refine ⟨⟨⟨_, T, _, hT⟩, []⟩, rfl, fun _ => rfl, (fun _ h => nomatch h), ?_, hreports⟩
    rcases hs with ⟨word, rfl, hread⟩ | ⟨hs, hread⟩
    · exact hread
    · rw [Account.words, Episode.result?, Action.accepted_of_fruitless (hs.map _)]
      exact hread
  | call budget channel addr =>
    obtain ⟨s₀, hrun, rfl⟩ := runs_map.1 hT
    obtain ⟨discarded, hne, hreports, hs⟩ := call_reads hrun
    refine ⟨⟨⟨_, T, _, hT⟩, discarded⟩, rfl, (fun h => nomatch h), ?_, ?_, ?_⟩
    · intro wanted hwanted
      cases hwanted
      exact hne
    · rcases hs with ⟨rfl, hread⟩ | ⟨hs, hread⟩
      · exact hread
      · rw [Account.words, Episode.result?, Action.accepted_of_fruitless (hs.map _)]
        simpa using hread
    · simpa [Account.notices, Action.notices, Action.wanted?] using hreports

end

/-! ## Operations in a row -/

/-- The words read in a run of any operations, wherever it is left, are those that are accounted
for: behind the words it threw away, each operation has the word it handed on or waited for. The
words that were thrown away are what is reported, each with the word it was compared with. -/
theorem words_accounted {actions : List Action} {T : Transcript MailboxPort}
    {s : Stop (List (Except Error (Reply UInt32)))}
    (h : (session Action.program actions limit).Runs T s) :
    ∃ accounts : List (Account limit), Divides actions T s (accounts.map Account.toEpisode) ∧
      (∀ a ∈ accounts, a.Balanced) ∧
      wordsRead T.accesses = accounts.flatMap Account.words ∧
      T.reports = accounts.flatMap Account.notices := by
  obtain ⟨accounts, hdivides, hbalanced⟩ := exists_accounts exists_balanced h
  refine ⟨accounts, hdivides, hbalanced, ?_, ?_⟩
  · rw [hdivides.accesses_eq, wordsRead_flatMap, List.flatMap_map]
    exact List.flatMap_congr fun a ha => (hbalanced a ha).words_eq
  · rw [hdivides.reports_eq, List.flatMap_map]
    exact List.flatMap_congr fun a ha => (hbalanced a ha).notices_eq

/-- A port that has no word at the first look, and none behind the first word. -/
def unevenPort : Behaviour MailboxPort :=
  port (fun _ => false) (fun past => past.length == 0 || past.length == 5) fun past =>
    match past.length with
    | 7 => 0x18
    | 11 => 0x38
    | _ => 0x28

/-- The first call runs out of its budget behind a word for somebody else, and its echo is received
later. -/
def unevenActions : List Action :=
  [.receive (.bounded 0), .call (.bounded 1) .property 0x10, .receive .unlimited,
    .call .unlimited .property 0x20]

theorem words_accounted_unevenPort :
    ((session Action.program unevenActions).record unevenPort 4).outcome =
      .ok [.error .timeout, .error .timeout, .ok (.word 0x18), .ok .done] ∧
    ∃ accounts : List (Account 4),
      accounts.map (·.action) = unevenActions ∧ (∀ a ∈ accounts, a.Balanced) ∧
      accounts.flatMap Account.words = [0x28, 0x18, 0x38, 0x28] ∧
      accounts.flatMap Account.notices = [.discarded 0x28 0x18, .discarded 0x38 0x28] := by
  have houtcome : ((session Action.program unevenActions).record unevenPort 4).outcome =
      .ok [.error .timeout, .error .timeout, .ok (.word 0x18), .ok .done] := rfl
  obtain ⟨accounts, hdivides, hbalanced, hwords, hnotices⟩ :=
    words_accounted (Tree.runs_record unevenPort (session Action.program unevenActions 4) [])
  obtain ⟨hactions, -⟩ := hdivides.complete _ (congrArg Stop.ended houtcome)
  refine ⟨houtcome, accounts, ?_, hbalanced, hwords.symm, hnotices.symm⟩
  rwa [List.map_map] at hactions

end Mailbox

end Bcm2835
